/-
References in the sheets of one directory.

A reference in a file is seen from the directory that the file lies in.  Two files of one
directory therefore mean the same by it, however the path of the directory is written.

The directory of a path is the path without its last component, cut off behind the last
component that is left.  What the cut leaves is in a tidy form (`tidy_directory`): it is
empty, the root, or a path that goes on with a slash wherever it is used.  A file name is
put behind a tidy path and taken away again, and what is left is the same path, byte for
byte (`Tidy.directory_join`).
-/
import FlatSheet.Proofs.Naming
import FlatSheet.Url.Parse

namespace FlatSheet

open Text Text.Utf8

namespace FilePath

/-- The directory that a file lies in.  What has no parent lies in the empty path. -/
def directory (p : FilePath) : FilePath := p.parent?.getD ⟨[]⟩

/-- A body without the pieces behind its last component. -/
def tidied (body : List UInt8) : List UInt8 :=
  [slash].intercalate (uptoComponent (body.splitOn slash))

/-- A name of a file: one piece, and a component. -/
def IsName (name : List UInt8) : Prop := slash ∉ name ∧ isNeutral name = false

/-! ### The front of a path -/

section

variable {f body : List UInt8}

/-- A path begins with a slash, with a dot in front of a slash or of nothing, or with neither. -/
theorem front_cases (p : FilePath) :
    (∃ body, p.front = ([slash], body)) ∨ p.front = ([dot], []) ∨
      (∃ body, p.front = ([dot], slash :: body)) ∨ ∃ body, p.front = ([], body) := by
  unfold front
  split
  · exact Or.inl ⟨_, rfl⟩
  · exact Or.inr (Or.inl rfl)
  · exact Or.inr (Or.inr (Or.inl ⟨_, rfl⟩))
  · exact Or.inr (Or.inr (Or.inr ⟨_, rfl⟩))

/-- Two bytes decide what a path begins with. -/
theorem front_append_of_two (a b : UInt8) (cs ds : List UInt8) :
    front ⟨a :: b :: cs ++ ds⟩ = ((front ⟨a :: b :: cs⟩).1, (front ⟨a :: b :: cs⟩).2 ++ ds) := by
  by_cases ha : a = 0x2F
  · subst ha
    rfl
  · by_cases hdot : a = 0x2E
    · subst hdot
      by_cases hb : b = 0x2F
      · subst hb
        rfl
      · simp [front, hb]
    · simp [front, ha, hdot]

theorem front_append_of_length {cs : List UInt8} (h : 2 ≤ cs.length) (ds : List UInt8) :
    front ⟨cs ++ ds⟩ = ((front ⟨cs⟩).1, (front ⟨cs⟩).2 ++ ds) := by
  rcases cs with _ | ⟨a, _ | ⟨b, cs⟩⟩
  · simp at h
  · simp at h
  · exact front_append_of_two a b cs ds

/-- A name begins with nothing but itself. -/
theorem front_name {name : List UInt8} (h : IsName name) : front ⟨name⟩ = ([], name) := by
  obtain ⟨hslash, hneutral⟩ := h
  unfold front
  split
  next body hname => simp [show name = _ from hname, slash] at hslash
  next hname => simp [show name = _ from hname, isNeutral, dot] at hneutral
  next body hname => simp [show name = _ from hname, slash] at hslash
  next => rfl

end

/-! ### The directory of a path, given its front -/

section

variable {f body name : List UInt8} {p : FilePath}

/-- A path without components behind its front lies in the empty path. -/
theorem directory_of_nil (hfront : p.front = (f, body))
    (h : uptoComponent (body.splitOn slash) = []) : p.directory = ⟨[]⟩ := by
  unfold directory parent?
  rw [hfront, h]
  by_cases hf : f = [0x2E]
  · subst hf
    rfl
  · simp [hf]

/-- Any other path loses its last component and what is neutral in front of it. -/
theorem directory_of_ne_nil (hfront : p.front = (f, body))
    (h : uptoComponent (body.splitOn slash) ≠ []) :
    p.directory = ⟨f ++ [slash].intercalate
      (uptoComponent (uptoComponent (body.splitOn slash)).dropLast)⟩ := by
  obtain ⟨piece, pieces, hpieces⟩ := List.exists_cons_of_ne_nil h
  unfold directory parent?
  rw [hfront, hpieces]
  by_cases hf : f = [0x2E]
  · subst hf
    rfl
  · simp

theorem uptoComponent_append_name (pieces : List (List UInt8)) (h : isNeutral name = false) :
    uptoComponent (pieces ++ [name]) = pieces ++ [name] :=
  List.rdropWhile_concat_neg isNeutral pieces name (by simp [h])

/-- A name with nothing but the front of the path before it is taken away. -/
theorem directory_of_name (hname : IsName name) (hfront : p.front = (f, name)) :
    p.directory = ⟨f⟩ := by
  have hpieces : uptoComponent (name.splitOn slash) = [name] := by
    rw [List.splitOn_eq_singleton hname.1]
    exact uptoComponent_append_name [] hname.2
  rw [directory_of_ne_nil hfront (by simp [hpieces]), hpieces]
  simp [uptoComponent]

/-- **A name behind a slash is taken away, and what is neutral in front of it.** -/
theorem directory_of_slash_name (hname : IsName name)
    (hfront : p.front = (f, body ++ slash :: name)) : p.directory = ⟨f ++ tidied body⟩ := by
  have hpieces : uptoComponent ((body ++ slash :: name).splitOn slash)
      = body.splitOn slash ++ [name] := by
    rw [List.splitOn_append_cons_self, List.splitOn_eq_singleton hname.1]
    exact uptoComponent_append_name _ hname.2
  rw [directory_of_ne_nil hfront (by simp [hpieces]), hpieces, List.dropLast_concat]
  rfl

end

/-! ### Tidy bodies -/

section

variable {body piece : List UInt8} {pieces : List (List UInt8)}

theorem slash_not_mem_of_mem_splitOn (h : piece ∈ body.splitOn slash) : slash ∉ piece := by
  induction body generalizing piece with
  | nil =>
      obtain rfl : piece = [] := by simpa using h
      simp
  | cons b body ih =>
      rw [List.splitOn_cons_eq_if_modifyHead] at h
      by_cases hb : b = slash
      · simp only [hb, beq_self_eq_true, if_true, List.mem_cons] at h
        rcases h with rfl | h
        · simp
        · exact ih h
      · simp only [beq_false_of_ne hb, Bool.false_eq_true, if_false] at h
        obtain ⟨first, more, hmore⟩ := List.exists_cons_of_ne_nil (List.splitOn_ne_nil slash body)
        rw [hmore, List.modifyHead_cons, List.mem_cons] at h
        rcases h with rfl | h
        · have hfirst : slash ∉ first := ih (by simp [hmore])
          simp [Ne.symm hb, hfirst]
        · exact ih (by simp [hmore, h])

/-- Pieces that are tidy stay what they are when they are joined and tidied. -/
theorem tidied_intercalate (hplain : ∀ piece ∈ pieces, slash ∉ piece)
    (htidy : uptoComponent pieces = pieces) :
    tidied ([slash].intercalate pieces) = [slash].intercalate pieces := by
  unfold tidied
  by_cases hnil : pieces = []
  · subst hnil
    simp [uptoComponent, isNeutral]
  · rw [List.splitOn_intercalate slash hplain hnil, htidy]

theorem uptoComponent_uptoComponent (pieces : List (List UInt8)) :
    uptoComponent (uptoComponent pieces) = uptoComponent pieces :=
  List.rdropWhile_idempotent isNeutral pieces

/-- Joined pieces are in front of a slash when more pieces follow. -/
theorem intercalate_append {more : List (List UInt8)} (h : pieces ≠ []) (hmore : more ≠ []) :
    [slash].intercalate (pieces ++ more)
      = [slash].intercalate pieces ++ slash :: [slash].intercalate more := by
  induction pieces with
  | nil => exact absurd rfl h
  | cons piece pieces ih =>
      by_cases hnil : pieces = []
      · subst hnil
        rw [List.singleton_append, List.intercalate_cons_of_ne_nil hmore,
          List.intercalate_singleton]
        simp
      · rw [List.cons_append, List.intercalate_cons_of_ne_nil (by simp [hnil]),
          List.intercalate_cons_of_ne_nil hnil, ih hnil]
        simp

/-- What is kept of pieces is in front of some that are not. -/
theorem exists_behind (h : uptoComponent pieces ≠ []) :
    ∃ more, more ≠ [] ∧ pieces = uptoComponent (uptoComponent pieces).dropLast ++ more := by
  have hkept := prefix_uptoComponent (uptoComponent pieces).dropLast
  have hall := prefix_uptoComponent pieces
  obtain ⟨more, hmore⟩ := (hkept.trans (List.dropLast_prefix _)).trans hall
  refine ⟨more, ?_, hmore.symm⟩
  rintro rfl
  have hlength := hkept.length_le
  have hpos := List.length_pos_iff.mpr h
  have hle := hall.length_le
  rw [List.append_nil] at hmore
  rw [hmore, List.length_dropLast] at hlength
  omega

/-- Tidy pieces end in a component. -/
theorem exists_of_tidy (h : pieces ≠ []) (htidy : uptoComponent pieces = pieces) :
    ∃ before last, [slash].intercalate pieces = before ++ last ∧ last ∈ pieces ∧
      isNeutral last = false := by
  obtain ⟨init, last, rfl⟩ := (List.eq_nil_or_concat' pieces).resolve_left h
  have hlast : isNeutral last = false := by
    by_contra hneutral
    have hdrop : uptoComponent (init ++ [last]) = uptoComponent init :=
      List.rdropWhile_concat_pos isNeutral init last (by simpa using hneutral)
    have hlength := (prefix_uptoComponent init).length_le
    rw [← hdrop, htidy, List.length_append, List.length_singleton] at hlength
    omega
  by_cases hinit : init = []
  · subst hinit
    exact ⟨[], last, by simp, by simp, hlast⟩
  · refine ⟨[slash].intercalate init ++ [slash], last, ?_, by simp, hlast⟩
    rw [intercalate_append hinit (by simp)]
    simp

end

/-! ### The directory of a path is tidy -/

/-- A directory that a path can lie in: the empty path, the root, or a path with a tidy body that is no
slash short of being followed by more. -/
inductive Tidy : FilePath → Prop where
  | empty : Tidy ⟨[]⟩
  | root : Tidy ⟨[slash]⟩
  | inner {f body : List UInt8} (htidy : tidied body = body) (hne : f ++ body ≠ [])
      (hlast : (f ++ body).getLast? ≠ some slash)
      (hfront : ∀ more, front ⟨f ++ (body ++ slash :: more)⟩ = (f, body ++ slash :: more)) :
      Tidy ⟨f ++ body⟩

section

variable {p : FilePath} {name : List UInt8}

theorem not_isAbsolute_name (hname : IsName name) : isAbsolute ⟨name⟩ = false := by
  obtain ⟨hslash, -⟩ := hname
  cases name with
  | nil => rfl
  | cons b name =>
      simp only [List.mem_cons, not_or] at hslash
      simp [isAbsolute, Ne.symm hslash.1]

/-- **A name put behind a tidy path is taken away again**, and the path is left as it was. -/
theorem Tidy.directory_join (h : p.Tidy) (hname : IsName name) :
    (p.join ⟨name⟩).directory = p := by
  have hrelative := not_isAbsolute_name hname
  cases h with
  | empty =>
      have hjoin : join ⟨[]⟩ ⟨name⟩ = ⟨name⟩ := by simp [join, hrelative]
      rw [hjoin]
      exact directory_of_name hname (front_name hname)
  | root =>
      have hjoin : join ⟨[slash]⟩ ⟨name⟩ = ⟨slash :: name⟩ := by simp [join, hrelative]
      rw [hjoin]
      exact directory_of_name hname rfl
  | @inner f body htidy hne hlast hfront =>
      have hjoin : join ⟨f ++ body⟩ ⟨name⟩ = ⟨f ++ (body ++ slash :: name)⟩ := by
        have hempty : (f ++ body).isEmpty = false := by
          rwa [← Bool.not_eq_true, List.isEmpty_iff]
        rw [join, hrelative, if_neg Bool.false_ne_true, hempty, if_neg (by simpa using hlast),
          List.append_assoc]
      rw [hjoin, directory_of_slash_name hname (hfront name), htidy]

/-- A path whose body goes on behind a slash goes on with anything there. -/
theorem front_of_slash {f body rest : List UInt8} (hfront : p.front = (f, body ++ slash :: rest))
    (hbody : body ≠ []) (more : List UInt8) :
    front ⟨f ++ (body ++ slash :: more)⟩ = (f, body ++ slash :: more) := by
  have hlength : 2 ≤ (f ++ (body ++ [slash])).length := by
    have hpos := List.length_pos_iff.mpr hbody
    simp only [List.length_append, List.length_singleton]
    omega
  have hbytes : p = ⟨f ++ (body ++ [slash]) ++ rest⟩ := by
    have hp := front_append p
    rw [hfront] at hp
    cases p
    simp only at hp
    simp [← hp]
  have hcut := front_append_of_length hlength rest
  rw [← hbytes, hfront] at hcut
  obtain ⟨hf, hrest⟩ := Prod.mk.inj hcut
  have hkept : body ++ [slash] = (front ⟨f ++ (body ++ [slash])⟩).2 := by
    have hbehind : (body ++ [slash]) ++ rest = (front ⟨f ++ (body ++ [slash])⟩).2 ++ rest := by
      simpa using hrest
    exact List.append_cancel_right hbehind
  have hmore := front_append_of_length hlength more
  rw [← hf, ← hkept] at hmore
  simpa using hmore

/-- Joined tidy pieces are a tidy body behind any front that does not change when more follows. -/
theorem tidy_of_pieces {f : List UInt8} {pieces : List (List UInt8)} (hne : pieces ≠ [])
    (hplain : ∀ piece ∈ pieces, slash ∉ piece) (htidy : uptoComponent pieces = pieces)
    (hfront : ∀ more, front ⟨f ++ ([slash].intercalate pieces ++ slash :: more)⟩
      = (f, [slash].intercalate pieces ++ slash :: more)) :
    Tidy ⟨f ++ [slash].intercalate pieces⟩ := by
  obtain ⟨before, last, hlast, hmem, hneutral⟩ := exists_of_tidy hne htidy
  have hlastNe : last ≠ [] := by
    rintro rfl
    simp [isNeutral] at hneutral
  refine .inner (tidied_intercalate hplain htidy) ?_ ?_ hfront
  · simp [hlast, hlastNe]
  · intro hend
    rw [hlast, ← List.append_assoc, List.getLast?_append_of_ne_nil _ hlastNe] at hend
    exact hplain last hmem (List.mem_of_getLast? hend)

/-- **Every path lies in a tidy directory.** -/
theorem tidy_directory (p : FilePath) : p.directory.Tidy := by
  rcases hfront : p.front with ⟨f, body⟩
  by_cases hnil : uptoComponent (body.splitOn slash) = []
  · rw [directory_of_nil hfront hnil]
    exact .empty
  · rw [directory_of_ne_nil hfront hnil]
    have htidy := uptoComponent_uptoComponent (uptoComponent (body.splitOn slash)).dropLast
    obtain ⟨more, hmore, hpieces⟩ := exists_behind hnil
    generalize uptoComponent (uptoComponent (body.splitOn slash)).dropLast = kept
      at htidy hpieces ⊢
    by_cases hkept : kept = []
    · -- Only the front of the path is left.
      subst hkept
      rcases front_cases p with ⟨b, h⟩ | h | ⟨b, h⟩ | ⟨b, h⟩
      · obtain ⟨rfl, -⟩ := Prod.mk.inj (hfront.symm.trans h)
        exact .root
      · obtain ⟨-, rfl⟩ := Prod.mk.inj (hfront.symm.trans h)
        simp [uptoComponent, isNeutral] at hnil
      · obtain ⟨rfl, -⟩ := Prod.mk.inj (hfront.symm.trans h)
        exact @Tidy.inner _ [] (by decide) (by simp) (by decide) fun _ => rfl
      · obtain ⟨rfl, -⟩ := Prod.mk.inj (hfront.symm.trans h)
        exact .empty
    · have hplain : ∀ piece ∈ kept, slash ∉ piece := by
        intro piece hpiece
        have hmem : piece ∈ body.splitOn slash := by
          rw [hpieces]
          exact List.mem_append_left more hpiece
        exact slash_not_mem_of_mem_splitOn hmem
      have hbody : body = [slash].intercalate kept ++ slash :: [slash].intercalate more := by
        rw [← intercalate_append hkept hmore, ← hpieces, List.intercalate_splitOn]
      have hjoined : [slash].intercalate kept ≠ [] := by
        obtain ⟨before, last, hlast, -, hneutral⟩ := exists_of_tidy hkept htidy
        intro h
        rw [hlast, List.append_eq_nil_iff] at h
        simp [h.2, isNeutral] at hneutral
      rw [hbody] at hfront
      exact tidy_of_pieces hkept hplain htidy (front_of_slash hfront hjoined)

end

/-! ### Names that are written as texts -/

/-- One component, as a text: not empty, without a slash, and not the name that a directory has for
itself. -/
structure Plain (name : String) : Prop where
  nonempty : name ≠ ""
  slash : '/' ∉ name.toList
  dot : name ≠ "."

theorem eq_of_encode_eq {a b : String} (h : encode a = encode b) : a = b := by
  have hdecoded := decode?_encode a
  rw [h, decode?_encode] at hdecoded
  exact (Option.some.inj hdecoded).symm

/-- The bytes of such a name are one component. -/
theorem Plain.isName {name : String} (h : Plain name) : IsName (encode name) := by
  refine ⟨?_, ?_⟩
  · intro hmem
    obtain ⟨before, behind, hsplit⟩ := List.mem_iff_append.mp hmem
    have hinfix : ['/'].map Char.toUInt8 <:+: ofChars name.toList :=
      ⟨before, behind, by rw [← encode_eq, hsplit, List.append_assoc]; rfl⟩
    obtain ⟨front, back, hname⟩ := infix_of_infix_ofChars (isAscii_of_all rfl) hinfix
    refine h.slash ?_
    rw [← hname]
    simp
  · have hempty : encode name ≠ encode "" := fun he => h.nonempty (eq_of_encode_eq he)
    have hdot : encode name ≠ encode "." := fun he => h.dot (eq_of_encode_eq he)
    have hnil : encode "" = [] := by decide
    have hone : encode "." = [FilePath.dot] := by decide
    rw [hnil] at hempty
    rw [hone] at hdot
    simp [isNeutral, hempty, hdot]

end FilePath

namespace Source

variable {U : Type} [Addressing U]

theorem resolve_file (p : FilePath) (reference : String) :
    (file p : Source U).resolve reference
      = if isAddress reference then parse reference
        else .ok (.file (p.directory.join (.ofString reference))) := rfl

/-- **References mean the same in all sheets of a directory.**  A file name in a sheet stands for a sheet
beside it, and every reference in that one stands for what it stands for in the first, or fails in
the same way. -/
theorem resolve_sibling {name : String} (hname : FilePath.Plain name) (p : FilePath) :
    ∃ sibling, (file p : Source U).resolve name = .ok (.file sibling) ∧
      ∀ reference, (file sibling : Source U).resolve reference = (file p).resolve reference := by
  have haddress : isAddress name = false := by
    rw [← Bool.not_eq_true, isAddress, occursIn_iff]
    intro hmark
    exact hname.slash (hmark.subset (by simp))
  refine ⟨p.directory.join (.ofString name), ?_, ?_⟩
  · rw [resolve_file, haddress]
    simp
  · intro reference
    have hsame : (p.directory.join (.ofString name)).directory = p.directory :=
      (FilePath.tidy_directory p).directory_join hname.isName
    rw [resolve_file, resolve_file, hsame]

/-- A sheet in a directory that is written with dots and slashes, one beside it whose name is no ASCII
text, and a reference to the directory above. -/
theorem resolve_sibling_dots :
    FilePath.Plain "é.css" ∧
      ∃ sibling, (file (.ofString "./a//./b.css/.") : Source Url).resolve "é.css"
          = .ok (.file sibling) ∧
        (file sibling : Source Url).resolve "../c.css" = .ok (.file (.ofString "./a/../c.css")) := by
  have hplain : FilePath.Plain "é.css" := ⟨by decide, by decide, by decide⟩
  obtain ⟨sibling, hsibling, hsame⟩ :=
    resolve_sibling (U := Url) hplain (.ofString "./a//./b.css/.")
  refine ⟨hplain, sibling, hsibling, ?_⟩
  rw [hsame]
  decide +kernel

end Source

end FlatSheet
