import NotProton.Library.Text

/-!
# ConfTable — reading the normalised plugin table (`compat_run.sh`)

The rows `np_conf_normalise` prints for the records it takes, without its `==` and `!` lines, which
every reader here passes over.
-/

open NotProton.Library

namespace NotProton.CompatRun

/-- A row: the record's id, a field's name and its value. -/
structure ConfRow where
  id : Bytes
  field : Bytes
  value : Bytes
  deriving DecidableEq

abbrev ConfTable := List ConfRow

def npConfValues (table : ConfTable) (id field : Bytes) : List Bytes :=
  (table.filter fun r ↦ r.id = id ∧ r.field = field).map ConfRow.value

-- `print $3; exit`, and nothing at all where there is no such row.
def npConfValue (table : ConfTable) (id field : Bytes) : Bytes :=
  ((npConfValues table id field).head?).getD []

def npConfHas (table : ConfTable) (id : Bytes) : Bool := table.any fun r ↦ r.id = id

/-- `case x in (pre*)`: the rest of a text that starts with `pre`. -/
def stripStart (pre s : Bytes) : Option Bytes :=
  if pre.isPrefixOf s then some (s.drop pre.length) else none

theorem stripStart_some {pre s rest : Bytes} (h : stripStart pre s = some rest) : s = pre ++ rest := by
  unfold stripStart at h
  split at h
  next hp =>
    obtain ⟨t, rfl⟩ := List.isPrefixOf_iff_prefix.mp hp
    rw [List.drop_left] at h
    rw [Option.some.inj h]
  next => cases h

def npHomePath (home p : Bytes) : Bytes :=
  if p.head? = some 47 then p
  else
    match stripStart (ascii "~/") p with
    | some rest => home ++ ascii "/" ++ rest
    | none =>
        match stripStart (ascii "$HOME/") p with
        | some rest => home ++ ascii "/" ++ rest
        | none => home ++ ascii "/" ++ p

end NotProton.CompatRun
