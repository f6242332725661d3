/-
What bytes show.

Bytes that are a text show that text, and it tells which bytes they are.  Any other bytes
are shown with replacement characters, which many bytes share.  The ASCII characters,
however, are always shown for what they are, and so is a text of them at the beginning.
-/
import FlatSheet.Proofs.Bytes
import FlatSheet.Text.Infix
import Mathlib.Algebra.Group.Nat.Defs

namespace FlatSheet.Text

/-- Only ASCII characters, and not the one with number zero. -/
def IsAscii (cs : List Char) : Prop := ∀ c ∈ cs, 0 < c.toNat ∧ c.toNat < 0x80

theorem isAscii_of_all {cs : List Char}
    (h : (cs.all fun c => 0 < c.toNat && c.toNat < 0x80) = true) : IsAscii cs := by
  intro c hc
  simpa using List.all_eq_true.mp h c hc

theorem occursIn_iff {pattern cs : List Char} : occursIn pattern cs = true ↔ pattern <:+: cs := by
  induction cs with
  | nil => simp [occursIn]
  | cons c cs ih =>
      rw [occursIn, Bool.or_eq_true, List.isPrefixOf_iff_prefix, ih, List.infix_cons_iff]

namespace Utf8

/-! ### Bytes that are a text -/

theorem encode_of_decode? {bytes : List UInt8} {text : String} (h : decode? bytes = some text) :
    encode text = bytes := by
  unfold decode? String.fromUTF8? at h
  split at h
  next hvalid =>
    obtain rfl := Option.some.inj h
    exact List.toList_data_toByteArray
  next => simp at h

theorem decode?_encode (text : String) : decode? (encode text) = some text := by
  have hbytes : (encode text).toByteArray = text.toUTF8 := by
    apply ByteArray.ext
    rw [List.data_toByteArray]
    rfl
  unfold decode? String.fromUTF8?
  rw [hbytes, String.toUTF8_eq_toByteArray, dif_pos text.isValidUTF8]
  rfl

/-- Different texts are different bytes, so bytes that are texts can be told apart. -/
theorem eq_of_lossy_eq {bytes bytes' : List UInt8} (h : (decode? bytes).isSome)
    (h' : (decode? bytes').isSome) (hlossy : lossy bytes = lossy bytes') : bytes = bytes' := by
  obtain ⟨text, htext⟩ := Option.isSome_iff_exists.mp h
  obtain ⟨text', htext'⟩ := Option.isSome_iff_exists.mp h'
  rw [lossy, lossy, htext, htext'] at hlossy
  rw [← encode_of_decode? htext, ← encode_of_decode? htext']
  exact congrArg encode hlossy

/-! ### ASCII characters in a text -/

section

variable {w cs : List Char}

theorem ofChars_of_isAscii (h : IsAscii w) : ofChars w = w.map Char.toUInt8 := by
  induction w with
  | nil => rfl
  | cons c w ih =>
      obtain ⟨hc, hw⟩ := List.forall_mem_cons.mp h
      rw [ofChars_cons, utf8EncodeChar_of_ascii hc.2, ih hw]
      rfl

/-- Bytes of ASCII characters at the beginning of a text are those characters. -/
theorem prefix_of_prefix_ofChars (hw : IsAscii w) (h : w.map Char.toUInt8 <+: ofChars cs) :
    w <+: cs := by
  induction w generalizing cs with
  | nil => exact List.nil_prefix
  | cons a w ih =>
      obtain ⟨⟨-, ha⟩, hw⟩ := List.forall_mem_cons.mp hw
      rcases cs with _ | ⟨c, cs⟩
      · simp at h
      · rw [List.map_cons, ofChars_cons] at h
        by_cases hc : c.toNat < 0x80
        · rw [utf8EncodeChar_of_ascii hc, List.singleton_append, List.cons_prefix_cons] at h
          obtain ⟨hac, h⟩ := h
          have hnat := congrArg UInt8.toNat hac
          rw [toNat_toUInt8 ha, toNat_toUInt8 hc] at hnat
          obtain rfl := Char.toNat_inj.mp hnat
          exact List.cons_prefix_cons.mpr ⟨rfl, ih hw h⟩
        · exfalso
          obtain ⟨first, followers, hbytes, hfirst, -⟩ := exists_of_not_ascii (Nat.not_lt.mp hc)
          rw [hbytes, List.cons_append, List.cons_prefix_cons] at h
          have hnat := congrArg UInt8.toNat h.1
          rw [toNat_toUInt8 ha] at hnat
          omega

theorem infix_of_infix_append {b : UInt8} {bs xs ys : List UInt8} (hxs : ∀ x ∈ xs, x ≠ b)
    (h : b :: bs <:+: xs ++ ys) : b :: bs <:+: ys := by
  induction xs with
  | nil => exact h
  | cons x xs ih =>
      obtain ⟨hx, hxs⟩ := List.forall_mem_cons.mp hxs
      rw [List.cons_append, List.infix_cons_iff, List.cons_prefix_cons] at h
      rcases h with ⟨rfl, -⟩ | h
      · exact absurd rfl hx
      · exact ih hxs h

/-- Bytes of ASCII characters anywhere in a text are those characters. -/
theorem infix_of_infix_ofChars (hw : IsAscii w) (h : w.map Char.toUInt8 <:+: ofChars cs) :
    w <:+: cs := by
  rcases w with _ | ⟨a, w⟩
  · exact List.nil_infix
  · induction cs with
    | nil => simp at h
    | cons c cs ih =>
        rw [List.infix_cons_iff]
        by_cases hc : c.toNat < 0x80
        · have hbytes : ofChars (c :: cs) = c.toUInt8 :: ofChars cs := by
            rw [ofChars_cons, utf8EncodeChar_of_ascii hc]
            rfl
          rw [hbytes, List.infix_cons_iff, ← hbytes] at h
          rcases h with h | h
          · exact Or.inl (prefix_of_prefix_ofChars hw h)
          · exact Or.inr (ih h)
        · refine Or.inr (ih (infix_of_infix_append ?_ h))
          intro b hb he
          have hle := le_of_mem_utf8EncodeChar (Nat.not_lt.mp hc) hb
          have ha := (hw a (by simp)).2
          rw [he, toNat_toUInt8 ha] at hle
          omega

end

/-! ### ASCII characters that are shown -/

/-- A number that is read from several bytes has at least the bits of the first ones. -/
theorem le_of_readFollowers {count : Nat} {least greatest : UInt8} {number n : Nat}
    {bytes rest : List UInt8} (h : readFollowers count least greatest number bytes = (some n, rest)) :
    number * 0x40 ^ count ≤ n := by
  fun_induction readFollowers count least greatest number bytes with
  | case1 count least greatest number =>
      obtain ⟨⟨rfl, rfl⟩, -⟩ := by simpa using h
      simp
  | case2 least greatest number b bytes =>
      obtain ⟨rfl, -⟩ := by simpa using h
      simp
  | case3 least greatest number b bytes k hb ih =>
      have hn := ih h
      rw [Nat.pow_succ']
      calc number * (0x40 * 0x40 ^ k) = number * 0x40 * 0x40 ^ k := (Nat.mul_assoc _ _ _).symm
        _ ≤ (number * 0x40 + b.toNat % 0x40) * 0x40 ^ k :=
            Nat.mul_le_mul_right _ (Nat.le_add_right _ _)
        _ ≤ n := hn
  | case4 => simp at h

/-- The bounds of the second byte are bounds of the number. -/
theorem le_of_readFollowers_succ {count : Nat} {least greatest : UInt8} {number n : Nat}
    {bytes rest : List UInt8} (hleast : 0x80 ≤ least.toNat) (hgreatest : greatest.toNat ≤ 0xBF)
    (h : readFollowers (count + 1) least greatest number bytes = (some n, rest)) :
    (number * 0x40 + least.toNat % 0x40) * 0x40 ^ count ≤ n := by
  rcases bytes with _ | ⟨b, bytes⟩
  · simp [readFollowers] at h
  · rw [readFollowers] at h
    split at h
    next hb =>
      have hle : least.toNat % 0x40 ≤ b.toNat % 0x40 := by
        have h1 := UInt8.le_iff_toNat_le.mp hb.1
        have h2 := UInt8.le_iff_toNat_le.mp hb.2
        omega
      exact Nat.le_trans (Nat.mul_le_mul_right _ (Nat.add_le_add_left hle _)) (le_of_readFollowers h)
    next => simp at h

/-- The bytes that may follow a first one leave no number that a single byte has. -/
theorem followers?_bounds (first : UInt8) :
    ∀ f ∈ followers? first, 0 < f.1 ∧ 0x80 ≤ f.2.1.toNat ∧ f.2.2.toNat ≤ 0xBF ∧
      0x80 ≤ (firstBits first * 0x40 + f.2.1.toNat % 0x40) * 0x40 ^ (f.1 - 1) := by
  have hall : ∀ n < 256, ∀ f ∈ followers? (UInt8.ofNat n), 0 < f.1 ∧ 0x80 ≤ f.2.1.toNat ∧
      f.2.2.toNat ≤ 0xBF ∧
      0x80 ≤ (firstBits (UInt8.ofNat n) * 0x40 + f.2.1.toNat % 0x40) * 0x40 ^ (f.1 - 1) := by
    decide +kernel
  have hfirst := hall first.toNat first.toNat_lt
  rwa [UInt8.ofNat_toNat] at hfirst

/-- What is shown for a byte that is no ASCII byte is no ASCII character, except that numbers of no
character are shown as zero. -/
theorem readChar_of_not_ascii {first : UInt8} (hfirst : ¬ first < 0x80) (bytes : List UInt8) :
    (readChar first bytes).1.toNat = 0 ∨ 0x80 ≤ (readChar first bytes).1.toNat := by
  fun_cases readChar first bytes with
  | case1 h => exact absurd h hfirst
  | case2 _ hf => exact Or.inr (show 0x80 ≤ '\uFFFD'.toNat by decide)
  | case3 _ count least greatest hf number rest hr =>
      obtain ⟨hcount, hleast, hgreatest, hbound⟩ := followers?_bounds first _ hf
      obtain ⟨k, rfl⟩ := Nat.exists_eq_add_one.mpr hcount
      have hnumber := Nat.le_trans hbound (le_of_readFollowers_succ hleast hgreatest hr)
      by_cases hvalid : number.isValidChar
      · refine Or.inr ?_
        rw [Char.ofNat, dif_pos hvalid]
        exact hnumber
      · refine Or.inl ?_
        rw [Char.ofNat, dif_neg hvalid]
        rfl
  | case4 _ count least greatest hf rest hr =>
      exact Or.inr (show 0x80 ≤ '\uFFFD'.toNat by decide)

/-- An ASCII character is shown by its own byte alone. -/
theorem readChar_of_ascii {first : UInt8} {bytes : List UInt8}
    (hpos : 0 < (readChar first bytes).1.toNat) (hlt : (readChar first bytes).1.toNat < 0x80) :
    (readChar first bytes).1.toUInt8 = first ∧ (readChar first bytes).2 = bytes := by
  have hfirst : first < 0x80 := by
    refine Decidable.byContradiction fun hfirst => ?_
    rcases readChar_of_not_ascii hfirst bytes with hzero | hle
    · omega
    · omega
  have hread : readChar first bytes = (Char.ofUInt8 first, bytes) := if_pos hfirst
  rw [hread] at hlt ⊢
  exact ⟨UInt8.toNat_inj.mp (toNat_toUInt8 hlt), rfl⟩

/-- ASCII characters that are shown first are the first bytes. -/
theorem prefix_of_prefix_shownChars {w : List Char} {bytes : List UInt8} (hw : IsAscii w)
    (h : w <+: shownChars bytes) : w.map Char.toUInt8 <+: bytes := by
  induction w generalizing bytes with
  | nil => exact List.nil_prefix
  | cons c w ih =>
      obtain ⟨hc, hmore⟩ := List.forall_mem_cons.mp hw
      rcases bytes with _ | ⟨first, bytes⟩
      · simp [shownChars] at h
      · rw [shownChars, List.cons_prefix_cons] at h
        obtain ⟨rfl, hrest⟩ := h
        obtain ⟨hfirst, hbytes⟩ := readChar_of_ascii hc.1 hc.2
        rw [hbytes] at hrest
        rw [List.map_cons, hfirst]
        exact List.cons_prefix_cons.mpr ⟨rfl, ih hmore hrest⟩

/-- **ASCII characters at the beginning are shown for what they are**, whatever comes after them. -/
theorem prefix_of_prefix_lossy {w : List Char} {bytes : List UInt8} (hw : IsAscii w)
    (h : w <+: (lossy bytes).toList) : w.map Char.toUInt8 <+: bytes := by
  rcases hd : decode? bytes with _ | text
  · rw [lossy, hd, Option.getD_none, String.toList_ofList] at h
    exact prefix_of_prefix_shownChars hw h
  · obtain ⟨rest, hrest⟩ := h
    rw [lossy, hd, Option.getD_some] at hrest
    rw [← encode_of_decode? hd, encode_eq, ← hrest, ofChars_append, ofChars_of_isAscii hw]
    exact List.prefix_append _ _

end Utf8

end FlatSheet.Text
