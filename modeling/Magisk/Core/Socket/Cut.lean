import Magisk.Core.Socket

/-!
# Messages that are cut off

A client may die while it sends.  Numbers are read in full or not at all, and a vector needs all of
its elements, but `String::decode` takes what there is before the end of the stream.

* `Ty.lastText`: the string that ends an encoding;
* `cutAt_decode`: decoding fails if more is missing than a part of that string;
* `exists_drains`: it succeeds if just that string is missing;
* `fails_iff`: so every message that is cut off is refused exactly if its encoding does not end with
  the bytes of a string.
-/

namespace Magisk.Core.Socket

open Magisk.Base Magisk.Lib List

/-! ### The last string -/

/-- The last string of some values: that of the last one with an encoding. -/
def lastTexts {α : Type} (encode : α → List UInt8) (lastText : α → Str) : List α → Str
  | [] => []
  | x :: xs => if xs.flatMap encode = [] then lastText x else lastTexts encode lastText xs

mutual

/-- The bytes of the string that the encoding of a value ends with, if it does. -/
def Ty.lastText (ptr : Nat) : (t : Ty) → t.Val ptr → Str
  | .u8, _ => []
  | .u32, _ => []
  | .i32, _ => []
  | .usize, _ => []
  | .bool, _ => []
  | .string, s => s.val
  | .vec elem, xs => lastTexts (elem.encode ptr) (elem.lastText ptr) xs
  | .struct fields, xs => Ty.lastTextFields ptr fields xs

/-- That of the last field with an encoding. -/
def Ty.lastTextFields (ptr : Nat) : (ts : List Ty) → Ty.Vals ptr ts → Str
  | [], _ => []
  | t :: ts, (x, xs) =>
    if Ty.encodeFields ptr ts xs = [] then t.lastText ptr x else Ty.lastTextFields ptr ts xs

end

/-! ### Numbers -/

variable {n : Nat} {p : List UInt8} {α : Type} {decode : Decode α} {encode : α → List UInt8}
  {lastText : α → Str} {xs : List α}

lemma fails_readPod (h : writePod n v = p ++ q) (hq : q ≠ []) : Fails (readPod n) p := by
  refine (fails_readExact _ ?_).bind _
  have hlen := congrArg List.length h
  rw [writePod, length_leBytes, length_append] at hlen
  have hpos := length_pos_of_ne_nil hq
  omega

lemma cutAt_readPod (n : Nat) (v : BitVec (8 * n)) : CutAt (readPod n) (writePod n v) 0 :=
  .of_fails (consumes_readPod n v) fun _ _ h hq => fails_readPod h hq

lemma cutAt_decodeU8 (v : UInt8) : CutAt decodeU8 (encodeU8 v) 0 :=
  .of_fails (consumes_decodeU8 v) fun _ _ h hq => (fails_readPod h hq).bind _

lemma cutAt_decodeU32 (v : UInt32) : CutAt decodeU32 (encodeU32 v) 0 :=
  .of_fails (consumes_decodeU32 v) fun _ _ h hq => (fails_readPod h hq).bind _

lemma fails_decodeI32 (h : encodeI32 v = p ++ q) (hq : q ≠ []) : Fails decodeI32 p :=
  (fails_readPod h hq).bind _

lemma cutAt_decodeI32 (v : Int32) : CutAt decodeI32 (encodeI32 v) 0 :=
  .of_fails (consumes_decodeI32 v) fun _ _ h hq => fails_decodeI32 h hq

lemma cutAt_decodeBool (b : Bool) : CutAt decodeBool (encodeBool b) 0 := by
  refine .of_fails (consumes_decodeBool b) fun p q h hq => ?_
  obtain ⟨v, hv⟩ : ∃ v, encodeBool b = encodeU8 v := by cases b <;> exact ⟨_, rfl⟩
  exact ((fails_readPod (hv ▸ h) hq).bind _).bind _

lemma encodeI32_ne_nil (v : Int32) : encodeI32 v ≠ [] := cons_ne_nil _ _

/-! ### Strings and vectors behind their length -/

/-- The part of `String::decode` behind the length. -/
def stringBody (len : Int32) : Decode Text := do
  withCapacity len
  let bytes ← readUpTo len.toInt.toNat
  if h : validUtf8 bytes = true then pure ⟨bytes, h⟩ else throw .invalidData

/-- The part of `Vec::decode` behind the length. -/
def vecBody {α : Type} (decode : Decode α) (len : Int32) : Decode (List α) := do
  withCapacity len
  decodeN decode len.toInt.toNat

lemma decodeVec_eq (decode : Decode α) :
    decodeVec decode = decodeI32 >>= vecBody decode := rfl

lemma withCapacity_ofNat (h : n < 2 ^ 31) : withCapacity (.ofNat n) = pure () := by
  rw [withCapacity, Int32.toInt_ofNat_of_lt h, if_neg (by omega)]

lemma vecBody_ofNat (decode : Decode α) (h : n < 2 ^ 31) :
    vecBody decode (.ofNat n) = decodeN decode n := by
  rw [vecBody, withCapacity_ofNat h, Int32.toInt_ofNat_of_lt h, Int.toNat_natCast, pure_bind]

lemma stringBody_of_content (h : n < 2 ^ 31) (hle : src.content.length ≤ n) :
    (stringBody (.ofNat n)) src =
      (if h : validUtf8 src.content = true then .ok ⟨src.content, h⟩ else .error .invalidData,
        (readFull n src).2) ∧ (readFull n src).2.content = [] := by
  have hdrop := (readFull_spec n src).2
  rw [drop_of_length_le hle] at hdrop
  refine ⟨?_, hdrop⟩
  rw [stringBody, withCapacity_ofNat h, Int32.toInt_ofNat_of_lt h, Int.toNat_natCast, pure_bind,
    bind_of_ok (readUpTo_eq n src), take_of_length_le hle]
  split <;> rfl

/-! ### Cutting off more -/

/-- A string is read up to the end of the stream. -/
lemma cutAt_decodeString (s : Text) (h : s.val.length < 2 ^ 31) :
    CutAt decodeString (encodeStr s.val) s.val.length := by
  refine .head (consumes_decodeI32 _) (fun _ _ => fails_decodeI32) (encodeI32_ne_nil _) ?_ ?_
  · intro p q hs hq
    rw [hs, length_append] at hq
    omega
  · intro p q hs src src' text hsrc hok
    have hle : src.content.length ≤ s.val.length := by
      rw [hsrc, hs, length_append]
      exact Nat.le_add_right _ _
    obtain ⟨hbody, hend⟩ := stringBody_of_content h hle
    rw [← (Prod.mk.inj (hbody.symm.trans hok)).2, hend]

lemma cutAt_decodeN (hm : ∀ x ∈ xs, Consumes decode (encode x) x)
    (h : ∀ x ∈ xs, CutAt decode (encode x) (lastText x).length) :
    CutAt (decodeN decode xs.length) (xs.flatMap encode)
      (lastTexts encode lastText xs).length := by
  induction xs with
  | nil => exact .of_fails (.pure []) fun p q hnil hq => absurd (nil_eq_append_iff.mp hnil).2 hq
  | cons x xs ih =>
    have hseq := CutAt.seq (g := List.cons) (hm x (.head _)) (h x (.head _))
      (ih (fun y hy => hm y (.tail _ hy))
        fun y hy => h y (.tail _ hy))
    rw [← apply_ite List.length] at hseq
    exact hseq

lemma cutAt_decodeVec (hlen : xs.length < 2 ^ 31) (hm : ∀ x ∈ xs, Consumes decode (encode x) x)
    (h : ∀ x ∈ xs, CutAt decode (encode x) (lastText x).length) :
    CutAt (decodeVec decode) (encodeSlice encode xs) (lastTexts encode lastText xs).length := by
  have hbody := cutAt_decodeN hm h
  rw [← vecBody_ofNat decode hlen] at hbody
  exact .head (consumes_decodeI32 _) (fun _ _ => fails_decodeI32) (encodeI32_ne_nil _)
    hbody.fails hbody.exhausts

mutual

/-- **Decoding a message that is cut off** fails if more is missing than a part of the string that
it ends with. -/
theorem cutAt_decode (ptr : Nat) : (t : Ty) → (x : t.Val ptr) → t.Short ptr x →
    CutAt (t.decode ptr) (t.encode ptr x) (t.lastText ptr x).length
  | .u8, v, _ => cutAt_decodeU8 v
  | .u32, v, _ => cutAt_decodeU32 v
  | .i32, v, _ => cutAt_decodeI32 v
  | .usize, v, _ => cutAt_readPod ptr v
  | .bool, b, _ => cutAt_decodeBool b
  | .string, s, h => cutAt_decodeString s h
  | .vec elem, _, h => cutAt_decodeVec h.1 (fun x hx => consumes_decode ptr elem x (h.2 x hx))
      fun x hx => cutAt_decode ptr elem x (h.2 x hx)
  | .struct fields, xs, h => cutAt_decodeFields ptr fields xs h

/-- So it does for the fields of a struct. -/
theorem cutAt_decodeFields (ptr : Nat) : (ts : List Ty) → (xs : Ty.Vals ptr ts) →
    Ty.ShortFields ptr ts xs →
    CutAt (Ty.decodeFields ptr ts) (Ty.encodeFields ptr ts xs) (Ty.lastTextFields ptr ts xs).length
  | [], _, _ => .of_fails (.pure ()) fun _ _ hnil hq =>
    absurd (nil_eq_append_iff.mp hnil).2 hq
  | t :: ts, (x, xs), h => by
      have hseq := CutAt.seq (g := Prod.mk) (consumes_decode ptr t x h.1)
        (cutAt_decode ptr t x h.1) (cutAt_decodeFields ptr ts xs h.2)
      rw [← apply_ite List.length] at hseq
      exact hseq

end

/-! ### Cutting off the last string -/

/-- The encoding without the last string is decoded. -/
def LastTextSpared {α : Type} (m : Decode α) (l : List UInt8) (text : Str) : Prop :=
  text ≠ [] → ∃ p y, l = p ++ text ∧ Drains m p y

/-- One decoder after another. -/
lemma LastTextSpared.seq {m : Decode α} {m' : Decode β} {g : α → β → γ} {b : β} (hm : Consumes m l a)
    (hm' : Consumes m' l' b) (h : LastTextSpared m l text) (h' : LastTextSpared m' l' text') :
    LastTextSpared (do let a ← m; let b ← m'; pure (g a b)) (l ++ l')
      (if l' = [] then text else text') := by
  intro htext
  split_ifs at htext ⊢ with hl'
  · subst hl'
    obtain ⟨p, y, rfl, hy⟩ := h htext
    refine ⟨p, g y b, append_nil _, ?_⟩
    exact hy.bind (hm'.drains.bind (Consumes.pure _).drains)
  · obtain ⟨p, y, rfl, hy⟩ := h' htext
    refine ⟨l ++ p, g a y, (append_assoc _ _ _).symm, ?_⟩
    exact hm.bind_drains (hy.bind (Consumes.pure _).drains)

lemma drains_decodeString (h : n < 2 ^ 31) {p : Str} (hp : validUtf8 p = true)
    (hle : p.length ≤ n) :
    Drains decodeString (encodeI32 (.ofNat n) ++ p) ⟨p, hp⟩ := by
  refine (consumes_decodeI32 _).bind_drains fun src hsrc => ?_
  have hcontent : src.content.length ≤ n := by rwa [hsrc]
  obtain ⟨hbody, hend⟩ := stringBody_of_content h hcontent
  refine ⟨_, hbody.trans ?_, hend⟩
  simp [hsrc, dif_pos hp]

lemma lastTextSpared_string (s : Text) (h : s.val.length < 2 ^ 31) :
    LastTextSpared decodeString (encodeStr s.val) s.val := by
  intro _
  have hcut := drains_decodeString h (p := []) (by decide) (Nat.zero_le _)
  exact ⟨_, _, rfl, hcut⟩

lemma lastTextSpared_decodeN (hm : ∀ x ∈ xs, Consumes decode (encode x) x)
    (h : ∀ x ∈ xs, LastTextSpared decode (encode x) (lastText x)) :
    LastTextSpared (decodeN decode xs.length) (xs.flatMap encode)
      (lastTexts encode lastText xs) := by
  induction xs with
  | nil => exact fun htext => absurd rfl htext
  | cons x xs ih =>
    have hm' : ∀ y ∈ xs, Consumes decode (encode y) y :=
      fun y hy => hm y (.tail _ hy)
    exact .seq (g := List.cons) (hm x (.head _)) (consumes_decodeN hm')
      (h x (.head _)) (ih hm' fun y hy => h y (.tail _ hy))

lemma lastTextSpared_decodeVec (hlen : xs.length < 2 ^ 31)
    (hm : ∀ x ∈ xs, Consumes decode (encode x) x)
    (h : ∀ x ∈ xs, LastTextSpared decode (encode x) (lastText x)) :
    LastTextSpared (decodeVec decode) (encodeSlice encode xs) (lastTexts encode lastText xs) := by
  intro htext
  obtain ⟨p, y, hp, hy⟩ := lastTextSpared_decodeN hm h htext
  refine ⟨encodeI32 (.ofNat xs.length) ++ p, y, ?_, ?_⟩
  · rw [encodeSlice, hp, append_assoc]
  · rw [decodeVec_eq]
    refine (consumes_decodeI32 _).bind_drains ?_
    rw [vecBody_ofNat decode hlen]
    exact hy

mutual

/-- **Without the string it ends with**, a message is decoded all the same. -/
theorem exists_drains (ptr : Nat) : (t : Ty) → (x : t.Val ptr) → t.Short ptr x →
    LastTextSpared (t.decode ptr) (t.encode ptr x) (t.lastText ptr x)
  | .u8, _, _ => fun h => absurd rfl h
  | .u32, _, _ => fun h => absurd rfl h
  | .i32, _, _ => fun h => absurd rfl h
  | .usize, _, _ => fun h => absurd rfl h
  | .bool, _, _ => fun h => absurd rfl h
  | .string, s, h => lastTextSpared_string s h
  | .vec elem, _, h => lastTextSpared_decodeVec h.1
      (fun x hx => consumes_decode ptr elem x (h.2 x hx))
      fun x hx => exists_drains ptr elem x (h.2 x hx)
  | .struct fields, xs, h => exists_drains_fields ptr fields xs h

/-- So are the fields of a struct. -/
theorem exists_drains_fields (ptr : Nat) : (ts : List Ty) → (xs : Ty.Vals ptr ts) →
    Ty.ShortFields ptr ts xs →
    LastTextSpared (Ty.decodeFields ptr ts) (Ty.encodeFields ptr ts xs)
      (Ty.lastTextFields ptr ts xs)
  | [], _, _ => fun h => absurd rfl h
  | t :: ts, (x, xs), h => .seq (g := Prod.mk) (consumes_decode ptr t x h.1)
      (consumes_decodeFields ptr ts xs h.2) (exists_drains ptr t x h.1)
      (exists_drains_fields ptr ts xs h.2)

end

/-! ### Strict prefixes -/

/-- **Messages that are cut off are refused** at every place, exactly if the encoding does not end
with the bytes of a string. -/
theorem fails_iff (ptr : Nat) (t : Ty) (x : t.Val ptr) (h : t.Short ptr x) :
    (∀ p q, t.encode ptr x = p ++ q → q ≠ [] → Fails (t.decode ptr) p) ↔
      t.lastText ptr x = [] := by
  constructor
  · intro hfails
    by_contra htext
    obtain ⟨p, y, hp, hy⟩ := exists_drains ptr t x h htext
    exact (hfails p _ hp htext).not_drains hy
  · intro htext p q hp hq
    refine (cutAt_decode ptr t x h).fails p q hp ?_
    rw [htext]
    exact length_pos_of_ne_nil hq

/-- A name and a number. -/
def nameAndNumber : (Ty.struct [.string, .i32]).Val 8 := (⟨str "ab", by decide⟩, (-1 : Int32), ())

/-- Cut off anywhere, they are refused. -/
theorem fails_struct : (Ty.struct [.string, .i32]).Short 8 nameAndNumber ∧
    ∀ p q, Ty.encode 8 (.struct [.string, .i32]) nameAndNumber = p ++ q → q ≠ [] →
      Fails (Ty.decode 8 (.struct [.string, .i32])) p := by
  have hshort : (Ty.struct [.string, .i32]).Short 8 nameAndNumber := by
    have hlen : (str "ab").length < 2 ^ 31 := by decide
    exact ⟨hlen, trivial, trivial⟩
  exact ⟨hshort, (fails_iff 8 _ _ hshort).mpr rfl⟩

/-- A string without its last byte is taken for a shorter string. -/
theorem string_cut_off : Ty.encode 8 .string ⟨str "ab", by decide⟩ = [2, 0, 0, 0, 97] ++ [98] ∧
    Drains (Ty.decode 8 .string) [2, 0, 0, 0, 97] ⟨str "a", by decide⟩ ∧
    ¬Fails (Ty.decode 8 .string) [2, 0, 0, 0, 97] := by
  have hdrains : Drains (Ty.decode 8 .string) [2, 0, 0, 0, 97] ⟨str "a", by decide⟩ :=
    drains_decodeString (n := 2) (by decide) (p := [97]) (by decide) (by decide)
  exact ⟨by decide, hdrains, fun hfails => hfails.not_drains hdrains⟩

end Magisk.Core.Socket
