import HotspotBackup.Error

/-!
# Asking the device

Some settings cannot be found in older backups and are asked of the device
while a backup is restored. A `Provider` is the answer the device gives at
that time, or its failure; an `Asking` computation counts how often the
device was asked.
-/

namespace HotspotBackup

/-- What the device answers when asked whether it shuts its hotspot down by
itself. -/
abbrev Provider := Except BackupError Bool

/-- A computation that may ask the device, with the number of times it did. -/
def Asking (α : Type) : Type :=
  Provider → Except BackupError α × Nat

namespace Asking

/-- The outcome under a given provider, and the number of lookups. -/
def run (m : Asking α) (p : Provider) : Except BackupError α × Nat :=
  m p

/-- Running of `m` and then of what `next` makes of its value; lookups add
up and the first failure ends it. -/
def andThen (m : Asking α) (next : α → Asking β) : Asking β := fun p =>
  match m p with
  | (.ok a, n) => ((next a p).1, n + (next a p).2)
  | (.error e, n) => (.error e, n)

instance : Monad Asking where
  pure a := fun _ => (.ok a, 0)
  bind := andThen

/-- A result that needs no lookup. -/
def ofExcept (r : Except BackupError α) : Asking α := fun _ =>
  (r, 0)

/-- A failure that needs no lookup. -/
def fail (e : BackupError) : Asking α :=
  ofExcept (.error e)

/-- One lookup. -/
def ask : Asking Bool := fun p =>
  (p, 1)

@[simp] theorem pure_run (a : α) (p : Provider) : (pure a : Asking α) p = (.ok a, 0) := rfl

@[simp] theorem ofExcept_run (r : Except BackupError α) (p : Provider) :
    ofExcept r p = (r, 0) := rfl

@[simp] theorem fail_run (e : BackupError) (p : Provider) :
    (fail e : Asking α) p = (.error e, 0) := rfl

@[simp] theorem ask_run (p : Provider) : ask p = (p, 1) := rfl

theorem bind_run (m : Asking α) (next : α → Asking β) (p : Provider) :
    (m >>= next) p = match m p with
      | (.ok a, n) => ((next a p).1, n + (next a p).2)
      | (.error e, n) => (.error e, n) := rfl

end Asking

end HotspotBackup
