/-
Which sources a name stands for.

A source goes by its name: an address as it is written, a path as it is shown.  Whatever
names and references a source comes from, its name tells which source it is, with one
exception: the bytes of a path that are no text are all shown by the same replacement
character, so two such paths can share a name.

An address on the web is never confused with a file, since it begins with its scheme, a
colon and two slashes (`LawfulAddressing.web_prefix`).  A path that begins otherwise than with a slash cannot hold a colon
and two slashes: a name that does is read as an address, and joining a reference to a
directory puts none together.
-/
import FlatSheet.Fetch.Source
import FlatSheet.Proofs.Lossy
import Mathlib.Data.List.DropRight

namespace FlatSheet

open Text Text.Utf8

/-! ### Paths -/

namespace FilePath

/-- A colon and two slashes. -/
def addressMark : List UInt8 := [':', '/', '/'].map Char.toUInt8

/-- A path from the root, or one that is not written like an address. -/
def Proper (p : FilePath) : Prop := p.isAbsolute = true ∨ ¬ addressMark <:+: p.bytes

theorem front_append (p : FilePath) : p.front.1 ++ p.front.2 = p.bytes := by
  unfold front
  split <;> simp_all [slash, dot]

/-- More pieces make a longer path. -/
theorem prefix_joined {pieces pieces' : List (List UInt8)} (h : pieces <+: pieces') :
    [slash].intercalate pieces <+: [slash].intercalate pieces' := by
  obtain ⟨more, rfl⟩ := h
  induction pieces with
  | nil => exact List.nil_prefix
  | cons piece pieces ih =>
      by_cases hnil : pieces = []
      · subst hnil
        rcases more with _ | ⟨next, more⟩
        · exact List.prefix_rfl
        · rw [List.singleton_append, List.intercalate_cons_cons, List.intercalate_singleton,
            List.append_assoc]
          exact List.prefix_append _ _
      · rw [List.cons_append, List.intercalate_cons_of_ne_nil hnil,
          List.intercalate_cons_of_ne_nil (by simp [hnil])]
        exact (List.prefix_append_right_inj _).mpr ih

theorem prefix_uptoComponent (pieces : List (List UInt8)) : uptoComponent pieces <+: pieces :=
  List.rdropWhile_prefix isNeutral pieces

/-- The parent of a path is written at its beginning. -/
theorem prefix_of_parent? {p q : FilePath} (h : p.parent? = some q) : q.bytes <+: p.bytes := by
  unfold parent? at h
  split at h
  · cases h
    exact List.nil_prefix
  · cases h
  next f body piece more hfront hpieces =>
    obtain rfl := Option.some.inj h
    have hfew : uptoComponent (piece :: more).dropLast <+: body.splitOn slash := by
      have h1 := prefix_uptoComponent (piece :: more).dropLast
      have h2 := List.dropLast_prefix (piece :: more)
      have h3 := prefix_uptoComponent (p.front.2.splitOn slash)
      rw [hpieces, hfront] at h3
      exact (h1.trans h2).trans h3
    have hbody := prefix_joined hfew
    rw [List.intercalate_splitOn] at hbody
    rw [← front_append p, hfront]
    exact (List.prefix_append_right_inj f).mpr hbody

/-- A text that goes on with a mark has a slash behind the mark's first byte. -/
theorem head?_of_mark {front back ys : List UInt8} (hmark : addressMark = front ++ back)
    (hfront : front ≠ []) (hback : back ≠ []) (hstarts : back <+: ys) : ys.head? = some slash := by
  obtain ⟨a, front, rfl⟩ := List.exists_cons_of_ne_nil hfront
  obtain ⟨b, back, rfl⟩ := List.exists_cons_of_ne_nil hback
  obtain ⟨rest, rfl⟩ := hstarts
  have htail : [slash, slash] = front ++ b :: back := (List.cons.inj hmark).2
  have hb : b ∈ [slash, slash] := htail ▸ List.mem_append_right front List.mem_cons_self
  obtain rfl : b = slash := by simpa using hb
  rfl

/-- What follows an end and does not begin with a slash makes no mark with it. -/
theorem not_mark_append {xs ys : List UInt8} (hxs : ¬ addressMark <:+: xs)
    (hys : ¬ addressMark <:+: ys) (h : ys.head? ≠ some slash) : ¬ addressMark <:+: xs ++ ys := by
  rw [List.infix_append_iff_ne_nil]
  rintro (hin | hin | ⟨front, back, hfront, hback, hmark, -, hstarts⟩)
  · exact hxs hin
  · exact hys hin
  · exact h (head?_of_mark hmark hfront hback hstarts)

/-- A single slash makes no mark. -/
theorem not_mark_append_slash {xs : List UInt8} (hxs : ¬ addressMark <:+: xs)
    (h : xs.getLast? ≠ some slash) : ¬ addressMark <:+: xs ++ [slash] := by
  rw [List.infix_append_iff_ne_nil]
  rintro (hin | hin | ⟨front, back, hfront, hback, hmark, hsuffix, hstarts⟩)
  · exact hxs hin
  · exact absurd hin (by decide)
  · obtain rfl : back = [slash] := by
      obtain ⟨b, back, rfl⟩ := List.exists_cons_of_ne_nil hback
      obtain ⟨rfl, hnil⟩ := List.cons_prefix_cons.mp hstarts
      rw [List.prefix_nil.mp hnil]
    obtain rfl : [0x3A, slash] = front := List.append_inj_left' hmark rfl
    obtain ⟨before, rfl⟩ := hsuffix
    simp at h

/-- Whatever is seen from a directory that begins at the root begins at the root. -/
theorem isAbsolute_join {base : FilePath} (h : base.isAbsolute = true) (relative : FilePath) :
    (base.join relative).isAbsolute = true := by
  obtain ⟨bs, hbs⟩ : ∃ bs, base.bytes = slash :: bs := by
    rcases hb : base.bytes with _ | ⟨b, bs⟩
    · simp [isAbsolute, hb] at h
    · obtain rfl : b = slash := by simpa [isAbsolute, hb] using h
      exact ⟨bs, rfl⟩
  unfold join
  split
  next hrelative => exact hrelative
  next =>
    rw [hbs]
    split
    · rfl
    · rfl

theorem not_mark_join {base relative : FilePath} (hbase : ¬ addressMark <:+: base.bytes)
    (hrelative : ¬ addressMark <:+: relative.bytes) (h : ¬ relative.isAbsolute = true) :
    ¬ addressMark <:+: (base.join relative).bytes := by
  have hhead : relative.bytes.head? ≠ some slash := by simpa [isAbsolute] using h
  unfold join
  rw [if_neg h]
  split
  next => exact not_mark_append hbase hrelative hhead
  next hlast =>
    simp only [Bool.or_eq_true, decide_eq_true_eq, not_or] at hlast
    have hboth := not_mark_append (not_mark_append_slash hbase hlast.2) hrelative hhead
    rwa [List.append_assoc] at hboth

/-- Seen from the directory of another path a path is no address either. -/
theorem Proper.join {p base relative : FilePath} (hp : p.Proper) (hbase : base.bytes <+: p.bytes)
    (hrelative : ¬ addressMark <:+: relative.bytes) : (base.join relative).Proper := by
  by_cases habsolute : relative.isAbsolute = true
  · refine Or.inl ?_
    rw [FilePath.join, if_pos habsolute]
    exact habsolute
  · rcases hp with hroot | hno
    · -- The directory begins at the root too, unless nothing is left of the path.
      rcases hb : base.bytes with _ | ⟨b, bs⟩
      · refine Or.inr (not_mark_join ?_ hrelative habsolute)
        rw [hb]
        decide
      · refine Or.inl (isAbsolute_join ?_ relative)
        rw [hb] at hbase
        obtain ⟨rest, hrest⟩ := hbase
        rw [isAbsolute, ← hrest] at hroot
        rw [isAbsolute, hb]
        exact hroot
    · refine Or.inr (not_mark_join ?_ hrelative habsolute)
      intro hin
      exact hno (hin.trans hbase.isInfix)

end FilePath

/-! ### Sources -/

namespace Source

open Addressing (Obtained IsWeb)

variable {U : Type} [Addressing U]

/-- The sources that come from a name, and from references in such sources. -/
inductive Named : Source U → Prop where
  | parse {name : String} {s : Source U} (h : parse name = .ok s) : Named s
  | resolve {s s' : Source U} {reference : String} (h : Named s)
      (hr : s.resolve reference = .ok s') : Named s'

/-- An address on the web, or a path that is not written like one. -/
def Proper : Source U → Prop
  | remote u => IsWeb u ∧ Obtained u
  | file p => p.Proper

/-- A name that is no address is written like none. -/
theorem not_mark_ofString {name : String} (h : isAddress name = false) :
    ¬ FilePath.addressMark <:+: (FilePath.ofString name).bytes := by
  intro hin
  have hname : ofChars name.toList = (FilePath.ofString name).bytes := (encode_eq name).symm
  rw [← hname] at hin
  have hchars := infix_of_infix_ofChars (isAscii_of_all rfl) hin
  rw [isAddress, occursIn_iff.mpr hchars] at h
  contradiction

theorem ofParse_eq_ok {r : Except String U} {s : Source U}
    (h : (do ofUrl (← ofParse r)) = .ok s) : ∃ u, r = .ok u ∧ ofUrl u = .ok s := by
  rcases r with e | u
  · cases h
  · exact ⟨u, rfl, h⟩

variable [LawfulAddressing U]

theorem proper_ofUrl {u : U} {s : Source U} (hu : Obtained u) (h : ofUrl u = .ok s) :
    s.Proper := by
  unfold ofUrl at h
  split at h
  next hweb =>
    cases h
    exact ⟨hweb, hu⟩
  next =>
    split at h
    · split at h
      next path hpath =>
        cases h
        exact Or.inl (LawfulAddressing.isAbsolute_filePath u path hpath)
      next => cases h
    · cases h

theorem proper_of_parse {name : String} {s : Source U} (h : parse name = .ok s) : s.Proper := by
  unfold parse at h
  split at h
  · obtain ⟨u, hu, hs⟩ := ofParse_eq_ok h
    exact proper_ofUrl (.parse hu) hs
  next hname =>
    cases h
    exact Or.inr (not_mark_ofString (by simpa using hname))

theorem Proper.resolve {s s' : Source U} {reference : String} (hs : s.Proper)
    (h : s.resolve reference = .ok s') : s'.Proper := by
  cases s with
  | remote base =>
      obtain ⟨u, hu, hs'⟩ := ofParse_eq_ok h
      exact proper_ofUrl (.join hs.2 hu) hs'
  | file p =>
      simp only [Source.resolve] at h
      split at h
      · exact proper_of_parse h
      next hname =>
        cases h
        refine FilePath.Proper.join hs ?_ (not_mark_ofString (by simpa using hname))
        rcases hq : p.parent? with _ | q
        · exact List.nil_prefix
        · exact FilePath.prefix_of_parent? hq

theorem Named.proper {s : Source U} (h : s.Named) : s.Proper := by
  induction h with
  | parse h => exact proper_of_parse h
  | resolve _ hr ih => exact ih.resolve hr

/-- An address on the web is the name of no file. -/
theorem id_remote_ne_id_file {u : U} {p : FilePath} (hu : (remote u).Proper)
    (hp : (file p : Source U).Proper) : (remote u).id ≠ (file p : Source U).id := by
  obtain ⟨hweb, hobtained⟩ := hu
  intro h
  have hstarts := LawfulAddressing.web_prefix u hobtained hweb
  have hid : (toString u : String) = lossy p.bytes := h
  rw [hid] at hstarts
  -- The path would have to begin like the address, and so with no slash.
  have hstart : ∃ scheme : List Char, IsAscii ('h' :: scheme ++ [':', '/', '/']) ∧
      'h' :: scheme ++ [':', '/', '/'] <+: (lossy p.bytes).toList := by
    rcases hweb with hscheme | hscheme
    · rw [hscheme] at hstarts
      exact ⟨"ttp".toList, isAscii_of_all rfl, hstarts⟩
    · rw [hscheme] at hstarts
      exact ⟨"ttps".toList, isAscii_of_all rfl, hstarts⟩
  obtain ⟨scheme, hascii, hshown⟩ := hstart
  have hbytes := prefix_of_prefix_lossy hascii hshown
  rw [List.map_append] at hbytes
  rcases hp with hroot | hno
  · obtain ⟨rest, hrest⟩ := hbytes
    rw [FilePath.isAbsolute, ← hrest] at hroot
    have hfirst : some 'h'.toUInt8 = some FilePath.slash := of_decide_eq_true hroot
    exact absurd hfirst (by decide)
  · exact hno ((List.suffix_append _ _).isInfix.trans hbytes.isInfix)

/-- Two files of which one has a path that is no text. -/
def Blurred (a b : Source U) : Prop :=
  ∃ p q, a = file p ∧ b = file q ∧ (decode? p.bytes = none ∨ decode? q.bytes = none)

/-- **Sources with one name are the same**, unless they are files and a path of theirs is no text. -/
theorem same_of_id_eq {a b : Source U} (ha : a.Named) (hb : b.Named) (h : a.id = b.id) :
    a.same b = true ∨ Blurred a b := by
  cases a with
  | remote u =>
      cases b with
      | remote v => exact Or.inl ((LawfulAddressing.beq_iff u v).mpr h)
      | file q => exact absurd h (id_remote_ne_id_file ha.proper hb.proper)
  | file p =>
      cases b with
      | remote v => exact absurd h.symm (id_remote_ne_id_file hb.proper ha.proper)
      | file q =>
          by_cases hp : (decode? p.bytes).isSome
          · by_cases hq : (decode? q.bytes).isSome
            · obtain rfl : p = q := congrArg FilePath.mk (eq_of_lossy_eq hp hq h)
              exact Or.inl (decide_eq_true rfl)
            · exact Or.inr ⟨p, q, rfl, rfl, Or.inr (by simpa using hq)⟩
          · exact Or.inr ⟨p, q, rfl, rfl, Or.inl (by simpa using hp)⟩

end Source

end FlatSheet
