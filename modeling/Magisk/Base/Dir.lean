import Magisk.Base.Str
import Magisk.Lib.Utf8

/-!
# Moving directories

`Directory::move_into` moves what is in a directory into another one.  A directory that exists on
both sides is moved recursively, and then the function returns.  Names that are not UTF-8 are not
read at all.

* `Entries`: the entries of a directory, in the order in which they are read;
* `moveInto`: what is left of the source, and the destination;
* `merge`: what the destination should become;
* `moveInto_iff`: when the source is merged into the destination.
-/

namespace Magisk.Base

open Magisk.Lib

/-- The entries of a directory, in the order in which they are read: directories, and others. -/
inductive Entries where
  | nil
  | file (name content : Str) (rest : Entries)
  | dir (name : Str) (children rest : Entries)
  deriving DecidableEq

namespace Entries

/-- The entry with a name: the content of a file, or the entries of a directory. -/
def find (key : Str) : Entries → Option (Str ⊕ Entries)
  | nil => none
  | file name content rest => if name = key then some (.inl content) else rest.find key
  | dir name children rest => if name = key then some (.inr children) else rest.find key

/-- An entry before some others. -/
def cons (name : Str) (node : Str ⊕ Entries) (rest : Entries) : Entries :=
  node.elim (file name · rest) (dir name · rest)

/-- The entry with a name is replaced or added. -/
def put (key : Str) (node : Str ⊕ Entries) : Entries → Entries
  | nil => cons key node nil
  | file name content rest =>
    if name = key then cons key node rest else file name content (rest.put key node)
  | dir name children rest =>
    if name = key then cons key node rest else dir name children (rest.put key node)

/-- `move_into`: what is left in the source, and the destination.  It fails where a directory is to
be moved over a file or a file over a directory, and where a directory that is not empty is
unlinked. -/
def moveInto : Entries → Entries → Option (Entries × Entries)
  | nil, dest => some (nil, dest)
  | file name content rest, dest =>
    if validUtf8 name then
      match dest.find name with
      | some (.inr _) => none
      | _ => rest.moveInto (dest.put name (.inl content))
    else (rest.moveInto dest).map fun r => (file name content r.1, r.2)
  | dir name children rest, dest =>
    if validUtf8 name then
      match dest.find name with
      | some (.inl _) => none
      | some (.inr existing) =>
        match children.moveInto existing with
        | some (nil, moved) => some (rest, dest.put name (.inr moved))
        | _ => none
      | none => rest.moveInto (dest.put name (.inr children))
    else (rest.moveInto dest).map fun r => (dir name children r.1, r.2)

/-- The destination with the source merged into it. -/
def merge : Entries → Entries → Entries
  | nil, dest => dest
  | file name content rest, dest => rest.merge (dest.put name (.inl content))
  | dir name children rest, dest =>
    match dest.find name with
    | some (.inr existing) => rest.merge (dest.put name (.inr (children.merge existing)))
    | _ => rest.merge (dest.put name (.inr children))

/-- Names are UTF-8, nothing is read after a directory that exists on both sides, at any depth, and
no name is that of a file on one side and of a directory on the other. -/
def SharedLast : Entries → Entries → Prop
  | nil, _ => True
  | file name content rest, dest =>
    validUtf8 name = true ∧ (∀ existing, dest.find name ≠ some (.inr existing)) ∧
      rest.SharedLast (dest.put name (.inl content))
  | dir name children rest, dest =>
    validUtf8 name = true ∧
      match dest.find name with
      | some (.inl _) => False
      | some (.inr existing) => children.SharedLast existing ∧ rest = nil
      | none => rest.SharedLast (dest.put name (.inr children))

variable {src dest moved : Entries}

/-- Where nothing is left the source has been merged. -/
lemma eq_merge_of_moveInto (h : src.moveInto dest = some (nil, moved)) :
    moved = src.merge dest := by
  induction src generalizing dest moved with
  | nil => simp_all [moveInto, merge]
  | file name content rest ih =>
    rw [moveInto] at h
    split at h
    · split at h
      · cases h
      · exact ih h
    · simp at h
  | dir name children rest ihc ih =>
    rw [moveInto] at h
    rw [merge]
    split at h
    · split at h
      · cases h
      · rename_i existing hfind
        split at h
        · rename_i m hm
          cases h
          rw [hfind, ihc hm]
          rfl
        · cases h
      · rename_i hfind
        rw [hfind]
        exact ih h
    · simp at h

/-- **When the source is merged into the destination** and is empty afterwards. -/
theorem moveInto_iff (src dest : Entries) :
    src.moveInto dest = some (nil, src.merge dest) ↔ src.SharedLast dest := by
  induction src generalizing dest with
  | nil => simp [moveInto, merge, SharedLast]
  | file name content rest ih =>
    rw [moveInto, SharedLast]
    split
    · rw [and_iff_right ‹_›]
      split
      · simp_all
      · rename_i hne
        exact (ih _).trans (and_iff_right hne).symm
    · simp_all
  | dir name children rest ihc ih =>
    rw [moveInto, merge, SharedLast]
    split
    · rw [and_iff_right ‹_›]
      cases hfind : dest.find name with
      | none => exact ih _
      | some node =>
        cases node with
        | inl content => simp
        | inr existing =>
          simp only [← ihc existing]
          cases hmove : children.moveInto existing with
          | none => simp
          | some r =>
            obtain ⟨left, moved⟩ := r
            cases left with
            | nil =>
              obtain rfl := eq_merge_of_moveInto hmove
              cases rest <;> simp [merge]
            | _ => simp
    · simp_all

/-- What is read after a directory that exists on both sides stays where it is. -/
theorem moveInto_early : (dir [1] nil (file [2] [3] nil)).moveInto (dir [1] nil nil) =
    some (file [2] [3] nil, dir [1] nil nil) := by
  decide

end Entries

end Magisk.Base
