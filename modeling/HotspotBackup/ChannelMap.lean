import HotspotBackup.Band

/-!
# Channels by band

A `ChannelMap` assigns channels to bands, at most one to each. Its entries
are kept by ascending band, so that two maps with the same assignments are
equal; `insert` keeps that order and replaces an earlier assignment.
-/

namespace HotspotBackup

/-- Channels by band, in strictly ascending band order. -/
structure ChannelMap where
  entries : List (Band × UInt32)
  ascending : entries.Pairwise fun a b => a.1.bits < b.1.bits
  deriving DecidableEq

namespace ChannelMap

/-- No assignment. -/
def empty : ChannelMap := ⟨[], .nil⟩

instance : Inhabited ChannelMap := ⟨empty⟩
instance : EmptyCollection ChannelMap := ⟨empty⟩

theorem ext {m n : ChannelMap} (h : m.entries = n.entries) : m = n := by
  cases m; cases n; cases h; rfl

/-- Ascending entries with the channel of one band set. -/
def insertEntry (band : Band) (channel : UInt32) : List (Band × UInt32) → List (Band × UInt32)
  | [] => [(band, channel)]
  | entry :: rest =>
    if band.bits < entry.1.bits then (band, channel) :: entry :: rest
    else if band.bits = entry.1.bits then (band, channel) :: rest
    else entry :: insertEntry band channel rest

theorem mem_insertEntry {band : Band} {channel : UInt32} {e : Band × UInt32}
    {entries : List (Band × UInt32)} (h : e ∈ insertEntry band channel entries) :
    e = (band, channel) ∨ e ∈ entries := by
  induction entries with
  | nil => simpa [insertEntry] using h
  | cons entry rest ih =>
    unfold insertEntry at h
    split at h
    · simpa using h
    · split at h
      · rcases List.mem_cons.1 h with h | h
        · exact .inl h
        · exact .inr (List.mem_cons_of_mem _ h)
      · rcases List.mem_cons.1 h with h | h
        · exact .inr (h ▸ List.mem_cons_self)
        · exact (ih h).imp_right (List.mem_cons_of_mem _)

theorem ascending_insertEntry (band : Band) (channel : UInt32) {entries : List (Band × UInt32)}
    (h : entries.Pairwise fun a b => a.1.bits < b.1.bits) :
    (insertEntry band channel entries).Pairwise fun a b => a.1.bits < b.1.bits := by
  induction entries with
  | nil => simp [insertEntry]
  | cons entry rest ih =>
    obtain ⟨hfirst, hrest⟩ := List.pairwise_cons.1 h
    unfold insertEntry
    split
    · rename_i hlt
      refine List.pairwise_cons.2 ⟨fun e he => ?_, h⟩
      rcases List.mem_cons.1 he with rfl | he
      · exact hlt
      · exact Nat.lt_trans hlt (hfirst e he)
    · split
      · rename_i heq
        exact List.pairwise_cons.2 ⟨fun e he => heq ▸ hfirst e he, hrest⟩
      · rename_i hlt hne
        refine List.pairwise_cons.2 ⟨fun e he => ?_, ih hrest⟩
        rcases mem_insertEntry he with rfl | he
        · exact Nat.lt_of_le_of_ne (Nat.not_lt.1 hlt) (Ne.symm hne)
        · exact hfirst e he

/-- The map with the channel of one band set, whatever it was before. -/
def insert (band : Band) (channel : UInt32) (m : ChannelMap) : ChannelMap :=
  ⟨insertEntry band channel m.entries, ascending_insertEntry band channel m.ascending⟩

/-- The channel of a band. -/
def get? (m : ChannelMap) (band : Band) : Option UInt32 :=
  (m.entries.find? (·.1 = band)).map (·.2)

/-- The bands with a channel, in ascending order. -/
def bands (m : ChannelMap) : List Band :=
  m.entries.map (·.1)

/-- The map of a list of assignments, of which a later one wins. -/
def ofList (assignments : List (Band × UInt32)) : ChannelMap :=
  assignments.foldl (fun m e => m.insert e.1 e.2) ∅

end ChannelMap

end HotspotBackup
