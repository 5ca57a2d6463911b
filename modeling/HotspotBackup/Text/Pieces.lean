/-!
# Pieces of a text

A text split at every occurrence of a separator, such as an address at its
colons or a path at its slashes.
-/

namespace HotspotBackup

/-- The pieces of a text between the separators `sep`; one piece more than
there are separators. -/
def pieces [DecidableEq α] (sep : α) : List α → List (List α)
  | [] => [[]]
  | c :: rest =>
    if c = sep then [] :: pieces sep rest
    else match pieces sep rest with
      | [] => [[c]]
      | piece :: others => (c :: piece) :: others

end HotspotBackup
