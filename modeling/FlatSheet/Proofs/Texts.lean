/-
The texts that names give.

A run reads the sources that it is given one after the other, and each of them may change
what a later one gives: the standard input is used up by the first name that asks for it,
and a text that was fetched is remembered.  What a name gives after some others is said
here without the state that is carried along (`textAfter`), and the state is shown to hold
just this (`Reader.Knows`).
-/
import FlatSheet.CommandLine
import FlatSheet.Fetch.FileTree
import FlatSheet.Proofs.Remembering

namespace FlatSheet

namespace CommandLine

variable {U : Type} [Addressing U]

/-! ### What names give -/

/-- The source that is fetched for a name.  The standard input is none. -/
def source? (name : String) : Option (Source U) :=
  if name = "-" then none else (Source.parse name).toOption

/-- The text that is remembered under an id when some names were read: that of the first of them whose
source has this id and a text. -/
def remembered? (w : World U) (id : String) (names : List String) : Option String :=
  names.findSome? fun name =>
    (source? name).bind fun s => if s.id = id then Fetcher.fetched? w s else none

/-- What a name gives on its own. -/
def textAlone (w : World U) (input : Input) (name : String) : Except RunError String :=
  if name = "-" then
    match input with
    | .error reason => .error (.input reason)
    | .ok bytes =>
      match Text.Utf8.decode? bytes with
      | some text => .ok text
      | none => .error .inputEncoding
  else
    match (Source.parse name : Except FetchError (Source U)) with
    | .error e => .error (.fetch e)
    | .ok s => (Fetcher.loadUncached w s).value.mapError .fetch

/-- What a name gives when others were read before it. -/
def textAfter (w : World U) (input : Input) (before : List String) (name : String) :
    Except RunError String :=
  if name = "-" ∧ "-" ∈ before then .ok ""
  else
    match (source? name : Option (Source U)).bind fun s => remembered? w s.id before with
    | some text => .ok text
    | none => textAlone w input name

/-- What names give one after the other, up to the first that gives no text.  Each text comes with its
name. -/
def textsAfter (w : World U) (input : Input) (before : List String) :
    List String → Except RunError (List (String × String))
  | [] => .ok []
  | name :: names => do
    let text ← textAfter w input before name
    return (name, text) :: (← textsAfter w input (before ++ [name]) names)

/-- One of the names gives no text. -/
def Unreadable (w : World U) (input : Input) (names : List String) : Prop :=
  ∃ before name after e, names = before ++ name :: after ∧
    textAfter w input before name = .error e

/-- All names give texts, and these are the texts. -/
structure TextsOf (w : World U) (input : Input) (names : List String)
    (sources : List (String × String)) : Prop where
  names : sources.map Prod.fst = names
  texts : ∀ before name text after, sources = before ++ (name, text) :: after →
    textAfter w input (before.map Prod.fst) name = .ok text

theorem source?_of_ne {name : String} (h : name ≠ "-") :
    (source? name : Option (Source U)) = (Source.parse name).toOption := if_neg h

theorem remembered?_concat (w : World U) (id : String) (names : List String) (name : String) :
    remembered? w id (names ++ [name])
      = (remembered? w id names).or
          ((source? name).bind fun s => if s.id = id then Fetcher.fetched? w s else none) := by
  unfold remembered?
  rw [List.findSome?_append, List.findSome?_cons, List.findSome?_nil]
  rcases (source? name).bind fun s => if s.id = id then Fetcher.fetched? w s else none with _ | text
  · rfl
  · rfl

section

variable {w : World U} {input : Input} {before names : List String}
  {sources : List (String × String)}

theorem TextsOf.not_unreadable (h : TextsOf w input names sources) :
    ¬ Unreadable w input names := by
  rintro ⟨before, name, after, e, hnames, he⟩
  have hsplit := h.names
  rw [hnames] at hsplit
  obtain ⟨front, back, rfl, rfl, hback⟩ := List.map_eq_append_iff.mp hsplit
  obtain ⟨⟨_, text⟩, behind, rfl, rfl, -⟩ := List.map_eq_cons_iff.mp hback
  rw [h.texts front _ text behind rfl] at he
  cases he

/-- Texts that are given one after the other are those that the names give after the others. -/
theorem textsAfter_eq_ok_iff : textsAfter w input before names = .ok sources ↔
    sources.map Prod.fst = names ∧ ∀ front name text after, sources = front ++ (name, text) :: after →
      textAfter w input (before ++ front.map Prod.fst) name = .ok text := by
  constructor
  · intro h
    induction names generalizing before sources with
    | nil =>
        cases h
        simp
    | cons first names ih =>
        unfold textsAfter at h
        rcases hfirst : textAfter w input before first with e | text
        · rw [hfirst] at h
          cases h
        rcases hrest : textsAfter w input (before ++ [first]) names with e | rest
        · rw [hfirst, hrest] at h
          cases h
        rw [hfirst, hrest] at h
        cases h
        obtain ⟨rfl, htexts⟩ := ih hrest
        refine ⟨rfl, ?_⟩
        intro front name text' after hsplit
        rcases front with _ | ⟨t, front⟩
        · obtain ⟨⟨rfl, rfl⟩, -⟩ := by simpa using hsplit
          rwa [List.map_nil, List.append_nil]
        · rw [List.cons_append, List.cons.injEq] at hsplit
          obtain ⟨rfl, hbehind⟩ := hsplit
          have htext := htexts front name text' after hbehind
          rwa [List.append_assoc] at htext
  · rintro ⟨rfl, htexts⟩
    induction sources generalizing before with
    | nil => rfl
    | cons t sources ih =>
        obtain ⟨name, text⟩ := t
        have hfirst := htexts [] name text sources rfl
        rw [List.map_nil, List.append_nil] at hfirst
        have hrest : textsAfter w input (before ++ [name]) (sources.map Prod.fst) = .ok sources := by
          refine ih ?_
          rintro front name' text' after rfl
          have htext := htexts ((name, text) :: front) name' text' after rfl
          rwa [List.append_assoc]
        show textsAfter w input before (name :: sources.map Prod.fst) = _
        unfold textsAfter
        rw [hfirst, hrest]
        rfl

theorem textsOf_iff : TextsOf w input names sources ↔ textsAfter w input [] names = .ok sources := by
  rw [textsAfter_eq_ok_iff]
  exact ⟨fun h => ⟨h.names, h.texts⟩, fun h => ⟨h.1, h.2⟩⟩

/-- A name that gives no text is the end of the matter. -/
theorem textsAfter_eq_error {e : RunError} (h : textsAfter w input before names = .error e) :
    ∃ front name after, names = front ++ name :: after ∧
      textAfter w input (before ++ front) name = .error e := by
  induction names generalizing before with
  | nil => cases h
  | cons first names ih =>
      unfold textsAfter at h
      rcases hfirst : textAfter w input before first with e' | text
      · rw [hfirst] at h
        cases h
        exact ⟨[], first, names, rfl, by rwa [List.append_nil]⟩
      rcases hrest : textsAfter w input (before ++ [first]) names with e' | rest
      · rw [hfirst, hrest] at h
        cases h
        obtain ⟨front, name, after, rfl, hname⟩ := ih hrest
        exact ⟨first :: front, name, after, rfl, by rwa [List.append_assoc] at hname⟩
      · rw [hfirst, hrest] at h
        cases h

end

/-! ### Reading -/

/-- What a reader carries along when some names were read: the texts that they left, and the standard
input if none of them asked for it. -/
structure Reader.Knows (r : Reader) (w : World U) (input : Input) (before : List String) :
    Prop where
  remembers : r.fetcher.remembers = true
  cache : ∀ id, r.fetcher.cache[id]? = remembered? w id before
  input : r.input = if "-" ∈ before then .ok [] else input

section

variable {r : Reader} {w : World U} {input : Input} {before : List String}

theorem knows_start (w : World U) (input : Input) :
    (⟨.new true, input⟩ : Reader).Knows w input [] :=
  ⟨rfl, fun _ => Std.HashMap.getElem?_empty, rfl⟩

theorem textAfter_dash (hr : r.Knows w input before) :
    textAfter w input before "-"
      = match r.input with
        | .error reason => .error (.input reason)
        | .ok bytes =>
          match Text.Utf8.decode? bytes with
          | some text => .ok text
          | none => .error .inputEncoding := by
  unfold textAfter
  by_cases hmem : "-" ∈ before
  · rw [if_pos ⟨rfl, hmem⟩, hr.input, if_pos hmem]
    rfl
  · rw [if_neg fun h => hmem h.2, hr.input, if_neg hmem]
    rfl

theorem textAfter_of_parse_error {name : String} {e : FetchError} (hname : name ≠ "-")
    (h : (Source.parse name : Except FetchError (Source U)) = .error e) : textAfter w input before name = .error (.fetch e) := by
  unfold textAfter textAlone
  rw [if_neg fun h => hname h.1, source?_of_ne hname, h, if_neg hname]
  rfl

theorem textAfter_of_parse_ok {name : String} {s : Source U} (hr : r.Knows w input before)
    (hname : name ≠ "-") (h : Source.parse name = .ok s) :
    textAfter w input before name = (r.fetcher.load w s).value.1.mapError .fetch := by
  unfold textAfter textAlone
  rw [if_neg fun h => hname h.1, source?_of_ne hname, h, if_neg hname, Fetcher.load_fst, hr.cache]
  show (match remembered? w s.id before with | some text => _ | none => _) = _
  rcases remembered? w s.id before with _ | text
  · rfl
  · rfl

/-- **One name gives what it gives after the others**, and if that is a text the reader carries along
what is known then. -/
theorem Reader.Knows.read (hr : r.Knows w input before) (name : String) :
    (r.read w name).value.1 = textAfter w input before name ∧
      ∀ text, textAfter w input before name = .ok text →
        (r.read w name).value.2.Knows w input (before ++ [name]) := by
  unfold Reader.read
  by_cases hname : name = "-"
  · subst hname
    rw [if_pos rfl, textAfter_dash hr]
    rcases r.input with reason | bytes
    · exact ⟨rfl, fun text h => nomatch h⟩
    dsimp only
    rcases Text.Utf8.decode? bytes with _ | text
    · exact ⟨rfl, fun text h => nomatch h⟩
    · refine ⟨rfl, fun _ _ => ⟨hr.remembers, ?_, by simp⟩⟩
      intro id
      rw [remembered?_concat]
      exact (hr.cache id).trans Option.or_none.symm
  · rw [if_neg hname]
    rcases hs : (Source.parse name : Except FetchError (Source U)) with e | s
    · rw [textAfter_of_parse_error hname hs]
      exact ⟨rfl, fun text h => nomatch h⟩
    · rw [textAfter_of_parse_ok hr hname hs]
      refine ⟨rfl, fun _ _ => ⟨Fetcher.remembers_load.trans hr.remembers, ?_, ?_⟩⟩
      · intro id
        rw [remembered?_concat, source?_of_ne hname, hs, ← hr.cache]
        show (r.fetcher.load w s).value.2.cache[id]? = _
        rw [Fetcher.cache_load hr.remembers]
        show _ = Option.or _ (if s.id = id then Fetcher.fetched? w s else none)
        by_cases hid : s.id = id
        · rw [if_pos hid, if_pos hid]
        · rw [if_neg hid, if_neg hid, Option.or_none]
      · rw [hr.input]
        simp [Ne.symm hname]

theorem Reader.Knows.readAll (hr : r.Knows w input before) (names : List String) :
    (r.readAll w names).value = textsAfter w input before names := by
  induction names generalizing r before with
  | nil => rfl
  | cons name names ih =>
      obtain ⟨hread, hknows⟩ := hr.read name
      unfold Reader.readAll textsAfter
      rw [Logged.value_bind]
      rcases hvalue : (r.read w name).value with ⟨e | text, r'⟩
      · rw [hvalue] at hread
        rw [← hread]
        rfl
      · rw [hvalue] at hread hknows
        rw [← hread]
        show (Logged.value (r'.readAll w names >>= _)) = _
        rw [Logged.value_bind, ih (hknows text hread.symm)]
        rcases textsAfter w input (before ++ [name]) names with e | rest
        · rfl
        · rfl

end

/-- The world in which the working directory holds one file. -/
def worldOf (name text : String) : World Url :=
  (FileTree.empty.write (.ofString name) (Text.Utf8.encode text)).world

end CommandLine

end FlatSheet
