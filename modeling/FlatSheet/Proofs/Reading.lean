/-
All or nothing.

A run prints nothing if one of its names gives no text, wherever it stands.  Otherwise it
prints what all texts make up together.  What is remembered cannot stand in for a source
that is missing, unless the path of a file is no text (`unreadable_iff`).
-/
import FlatSheet.Proofs.OutputModes

namespace FlatSheet

namespace CommandLine

variable {U : Type} [Addressing U]

/-! ### Sources that are remembered -/

/-- Every file among the names has a path that is text. -/
def TextPaths (U : Type) [Addressing U] (names : List String) : Prop :=
  ∀ name ∈ names, ∀ p, source? name = some (Source.file p : Source U) →
    (Text.Utf8.decode? p.bytes).isSome

section

variable {w : World U} {input : Input} {names : List String}

theorem value_get_of_send_eq {u v : U} (h : w.send u = w.send v) :
    (Client.get w u).value = (Client.get w v).value := by
  unfold Client.get
  rw [Logged.value_bind, Logged.value_bind, h]

/-- Two addresses that are written alike and are sent the same have one text. -/
theorem loadUncached_of_send_eq {u v : U} (hsend : w.send u = w.send v)
    (h : toString u = toString v) :
    (Fetcher.loadUncached w (.remote u)).value = (Fetcher.loadUncached w (.remote v)).value := by
  unfold Fetcher.loadUncached
  dsimp only
  rw [Logged.value_bind, Logged.value_bind, value_get_of_send_eq hsend]
  rcases (Client.get w v).value with e | response
  · rfl
  · dsimp only
    rw [h]

/-- Two sources with one id have one text, if their paths are text and an address is asked by what is
written in it. -/
theorem loadUncached_of_id_eq [LawfulAddressing U] {a b : Source U}
    (hw : ∀ u v : U, (u == v) = true → w.send u = w.send v)
    (ha : a.Proper) (hb : b.Proper) (hid : a.id = b.id)
    (hapath : ∀ p, a = .file p → (Text.Utf8.decode? p.bytes).isSome)
    (hbpath : ∀ p, b = .file p → (Text.Utf8.decode? p.bytes).isSome) :
    (Fetcher.loadUncached w a).value = (Fetcher.loadUncached w b).value := by
  cases a with
  | remote u =>
      cases b with
      | remote v =>
          have hequal : (u == v) = true := (LawfulAddressing.beq_iff u v).mpr hid
          exact loadUncached_of_send_eq (hw u v hequal) hid
      | file q => exact absurd hid (Source.id_remote_ne_id_file ha hb)
  | file p =>
      cases b with
      | remote v => exact absurd hid.symm (Source.id_remote_ne_id_file hb ha)
      | file q =>
          obtain rfl : p = q :=
            congrArg FilePath.mk (Text.Utf8.eq_of_lossy_eq (hapath p rfl) (hbpath q rfl) hid)
          rfl

theorem source?_eq_some {name : String} {s : Source U} (h : source? name = some s) :
    name ≠ "-" ∧ Source.parse name = .ok s := by
  unfold source? at h
  split at h
  next => cases h
  next hname =>
    rcases hs : (Source.parse name : Except FetchError (Source U)) with e | s'
    · rw [hs] at h
      cases h
    · rw [hs] at h
      cases h
      exact ⟨hname, rfl⟩

/-- Only an address can name a file whose path is no text. -/
theorem textPaths_of_not_address (h : ∀ name ∈ names, Source.isAddress name = false) :
    TextPaths U names := by
  intro name hname p hs
  have hparse := (source?_eq_some hs).2
  unfold Source.parse at hparse
  rw [if_neg (by simp [h name hname])] at hparse
  cases hparse
  exact Option.isSome_of_eq_some (Text.Utf8.decode?_encode name)

/-- A text that is remembered was fetched for one of the names. -/
theorem remembered?_eq_some {id text : String} (h : remembered? w id names = some text) :
    ∃ name ∈ names, ∃ s : Source U, source? name = some s ∧ s.id = id ∧
      (Fetcher.loadUncached w s).value = .ok text := by
  obtain ⟨name, hname, hs⟩ := List.exists_of_findSome?_eq_some h
  obtain ⟨s, hs, htext⟩ := Option.bind_eq_some_iff.mp hs
  split at htext
  next hid => exact ⟨name, hname, s, hs, hid, Fetcher.fetched?_eq_some htext⟩
  next => cases htext

/-- Where a name gives no text, it gives none on its own. -/
theorem textAlone_of_textAfter_error {before : List String} {name : String} {e : RunError}
    (h : textAfter w input before name = .error e) : textAlone w input name = .error e := by
  unfold textAfter at h
  split at h
  · cases h
  · split at h
    · cases h
    · exact h

/-- **What is remembered never stands in for a source that has no text**, if the paths of all files are
text and an address is asked by what is written in it.  So some name gives no text exactly if one of
them gives none on its own. -/
theorem unreadable_iff [LawfulAddressing U]
    (hw : ∀ u v : U, (u == v) = true → w.send u = w.send v) (hpaths : TextPaths U names) :
    Unreadable w input names ↔ ∃ name ∈ names, ∃ e, textAlone w input name = .error e := by
  constructor
  · rintro ⟨before, name, after, e, rfl, he⟩
    exact ⟨name, by simp, e, textAlone_of_textAfter_error he⟩
  · rintro ⟨name, hname, e, he⟩
    -- The first occurrence of the name is the one to look at: the standard input is used up later.
    obtain ⟨before, after, rfl, hfirst⟩ := List.eq_append_cons_of_mem hname
    refine ⟨before, name, after, e, rfl, ?_⟩
    unfold textAfter
    rw [if_neg fun (h : name = "-" ∧ "-" ∈ before) => hfirst (h.1 ▸ h.2)]
    split
    next text htext =>
      obtain ⟨s, hs, hremembered⟩ := Option.bind_eq_some_iff.mp htext
      obtain ⟨other, hother, a, ha, hid, hfetched⟩ := remembered?_eq_some hremembered
      obtain ⟨hdash, hparse⟩ := source?_eq_some hs
      have hsame : (Fetcher.loadUncached w a).value = (Fetcher.loadUncached w s).value := by
        refine loadUncached_of_id_eq hw (Source.proper_of_parse (source?_eq_some ha).2)
          (Source.proper_of_parse hparse) hid ?_ ?_
        · rintro p rfl
          exact hpaths other (by simp [hother]) p ha
        · rintro p rfl
          exact hpaths name (by simp) p hs
      unfold textAlone at he
      rw [if_neg hdash, hparse] at he
      dsimp only at he
      rw [← hsame, hfetched] at he
      cases he
    next => exact he

end

/-! ### What a run leaves behind -/

section

variable {argv : List String} {o : Options} {w : World U} {input : Input}
  {sources : List (String × String)}

theorem call_of_error {e : RunError} (h : parse argv.tail = .ok (.run o))
    (hrun : (run o w input).value = .error e) :
    (call argv w input).exitCode = 1 ∧ (call argv w input).printed = "" ∧
      (call argv w input).complaint = s!"Error: {e.message}\n" := by
  unfold call
  rw [h]
  dsimp only
  rw [hrun]
  exact ⟨rfl, rfl, rfl⟩

theorem call_of_ok {output : Output} (h : parse argv.tail = .ok (.run o))
    (hrun : (run o w input).value = .ok output) :
    (call argv w input).printed = output.text ++ "\n" ∧ (call argv w input).complaint = "" ∧
      ((call argv w input).exitCode = 1 ↔ o.check = true ∧ output.complete = false) := by
  obtain ⟨text, complete⟩ := output
  unfold call
  rw [h]
  dsimp only
  rw [hrun]
  refine ⟨rfl, rfl, ?_⟩
  unfold Outcome.exitCode
  cases o.check <;> cases complete <;> simp

/-- A run prints its texts as one sheet or as one JSON document, and tells whether all of them were read
to their end. -/
theorem call_of_texts (h : parse argv.tail = .ok (.run o)) (hclient : w.client {} = .ok ())
    (hsources : TextsOf w input o.sources sources) {texts : List String}
    (htexts : texts = (if o.reset then [Sink.baseReset] else []) ++ sources.map Prod.snd) :
    (call argv w input).printed
        = (if o.json then (Flattened.merged texts).toJson.pretty 0
            else emit (Flattened.merged texts).rules) ++ "\n" ∧
      (call argv w input).complaint = "" ∧
      ((call argv w input).exitCode = 1 ↔
        o.check = true ∧ ∃ text ∈ texts, (flatten text).isComplete = false) := by
  obtain ⟨hprinted, hcomplaint, hexit⟩ :=
    call_of_ok h (value_run_of_texts hclient hsources htexts)
  refine ⟨hprinted, hcomplaint, hexit.trans ?_⟩
  rw [Flattened.isComplete_merged]
  simp

/-- Names give texts, or one of them gives none. -/
theorem unreadable_or_exists_textsOf (w : World U) (input : Input) (names : List String) :
    Unreadable w input names ∨ ∃ sources, TextsOf w input names sources := by
  rcases htexts : textsAfter w input [] names with e | sources
  · obtain ⟨before, name, after, hnames, he⟩ := textsAfter_eq_error htexts
    exact Or.inl ⟨before, name, after, e, hnames, he⟩
  · exact Or.inr ⟨sources, textsOf_iff.mpr htexts⟩

/-- **All or nothing.**  A run of which some name gives no text fails and prints nothing, and it tells
why such a name gives none.  Otherwise it prints what the base reset, if it is asked for, and the
texts of all its names make up together, and fails exactly if it is to check and one of these is not
read to its end.  With paths that are text, names give texts exactly if each of them does on its own.
All this takes a client, without which a run fails and prints nothing. -/
theorem call_all_or_nothing [LawfulAddressing U] (h : parse argv.tail = .ok (.run o)) (w : World U)
    (input : Input) :
    (∀ reason, w.client {} = .error reason →
      (call argv w input).exitCode = 1 ∧ (call argv w input).printed = "" ∧
        (call argv w input).complaint = s!"Error: Request failed: {reason}\n") ∧
      (w.client {} = .ok () → Unreadable w input o.sources →
        (call argv w input).exitCode = 1 ∧ (call argv w input).printed = "" ∧
          ∃ before name after e, o.sources = before ++ name :: after ∧
            textAfter w input before name = .error e ∧
            (call argv w input).complaint = s!"Error: {e.message}\n") ∧
      (w.client {} = .ok () → ∀ sources, TextsOf w input o.sources sources →
        ∀ texts, texts = (if o.reset then [Sink.baseReset] else []) ++ sources.map Prod.snd →
          (call argv w input).printed
              = (if o.json then (Flattened.merged texts).toJson.pretty 0
                  else emit (Flattened.merged texts).rules) ++ "\n" ∧
            (call argv w input).complaint = "" ∧
            ((call argv w input).exitCode = 1 ↔
              o.check = true ∧ ∃ text ∈ texts, (flatten text).isComplete = false)) ∧
      (Unreadable w input o.sources ∨ ∃ sources, TextsOf w input o.sources sources) ∧
      ((∀ u v : U, (u == v) = true → w.send u = w.send v) → TextPaths U o.sources →
        (Unreadable w input o.sources ↔
          ∃ name ∈ o.sources, ∃ e, textAlone w input name = .error e)) := by
  refine ⟨?_, ?_, ?_, unreadable_or_exists_textsOf w input o.sources, unreadable_iff⟩
  · intro reason hclient
    exact call_of_error h (value_run_of_no_client hclient o)
  · intro hclient hunreadable
    rcases htexts : textsAfter w input [] o.sources with e | sources
    · obtain ⟨before, name, after, hnames, he⟩ := textsAfter_eq_error htexts
      obtain ⟨hexit, hprinted, hcomplaint⟩ := call_of_error h (value_run_of_error hclient htexts)
      exact ⟨hexit, hprinted, before, name, after, e, hnames, he, hcomplaint⟩
    · exact absurd hunreadable (textsOf_iff.mpr htexts).not_unreadable
  · intro hclient sources hsources texts htexts
    exact call_of_texts h hclient hsources htexts

end

/-- A check prints all texts though the first is not read to its end.  A missing file is the end of all,
and so is a standard input that cannot be read. -/
theorem call_all_or_nothing_check :
    let w : World Url := worldOf "a.css" ".a \x7b x: 1; \x7d .b \x7b"
    let input : Input := .ok (Text.Utf8.encode ".c \x7b y: 2; \x7d")
    let directory : Input := .error ReadError.isADirectory.message
    (call ["stylenest", "--check", "a.css", "-"] w input).printed
        = ".a \x7b x: 1; \x7d\n.c \x7b y: 2; \x7d\n" ∧
      (call ["stylenest", "--check", "a.css", "-"] w input).exitCode = 1 ∧
      (call ["stylenest", "a.css", "-", "b.css"] w input).printed = "" ∧
      (call ["stylenest", "a.css", "-", "b.css"] w input).exitCode = 1 ∧
      (call ["stylenest", "--check", "a.css", "-"] w directory).printed = "" ∧
      (call ["stylenest", "--check", "a.css", "-"] w directory).exitCode = 1 := by
  intro w input directory
  have hcheck : parse ["stylenest", "--check", "a.css", "-"].tail
      = .ok (.run { check := true, sources := ["a.css", "-"] }) := by
    decide
  have hmissing : parse ["stylenest", "a.css", "-", "b.css"].tail
      = .ok (.run { sources := ["a.css", "-", "b.css"] }) := by
    decide
  have htexts : textsAfter w input [] ["a.css", "-"]
      = .ok [("a.css", ".a \x7b x: 1; \x7d .b \x7b"), ("-", ".c \x7b y: 2; \x7d")] := by
    decide +kernel
  have hno : textAlone w input "b.css"
      = .error (.fetch (.io (.ofString "b.css") ReadError.notFound.message)) := by
    decide +kernel
  have hdirectory : textAlone w directory "-"
      = .error (.input ReadError.isADirectory.message) := rfl
  have hsend : ∀ u v : Url, (u == v) = true → w.send u = w.send v := by
    intro u v h
    have hstring : toString u = toString v := (LawfulAddressing.beq_iff u v).mp h
    show Except.error ({ isConnect := true, reason := s!"no server answers at {u}" } : RequestError)
      = .error { isConnect := true, reason := s!"no server answers at {v}" }
    rw [hstring]
  have hpaths : TextPaths Url ["a.css", "-", "b.css"] := textPaths_of_not_address (by decide)
  have hpaths' : TextPaths Url ["a.css", "-"] := textPaths_of_not_address (by decide)
  obtain ⟨-, -, hall, -, -⟩ := call_all_or_nothing hcheck w input
  obtain ⟨-, hnothing, -, -, hiff⟩ := call_all_or_nothing hmissing w input
  obtain ⟨-, hnothing', -, -, hiff'⟩ := call_all_or_nothing hcheck w directory
  obtain ⟨hprinted, -, hexit⟩ := hall rfl _ (textsOf_iff.mpr htexts) _ rfl
  obtain ⟨hexit₁, hprinted₁, -⟩ :=
    hnothing rfl ((hiff hsend hpaths).mpr ⟨"b.css", by simp, _, hno⟩)
  obtain ⟨hexit₂, hprinted₂, -⟩ :=
    hnothing' rfl ((hiff' hsend hpaths').mpr ⟨"-", by simp, _, hdirectory⟩)
  refine ⟨?_, hexit.mpr ⟨rfl, _, List.mem_cons_self, by decide +kernel⟩, hprinted₁, hexit₁,
    hprinted₂, hexit₂⟩
  rw [hprinted]
  decide +kernel

/-- A missing file is answered with the text of another one, since its path is no text and is shown like
the path of that one. -/
theorem call_replaced :
    ∃ (argv : List String) (o : Options) (w : World Url) (name : String) (e : RunError),
      parse argv.tail = .ok (.run o) ∧ name ∈ o.sources ∧ textAlone w (.ok []) name = .error e ∧
      (call argv w (.ok [])).exitCode ≠ 1 ∧
      (call argv w (.ok [])).printed = ".a \x7b x: 1; \x7d\n.a \x7b x: 1; \x7d\n" := by
  have hparse : parse ["stylenest", "/proc/self/cwd/\ufffd.css",
      "file:///proc/self/cwd/%FF.css"].tail
      = .ok (.run { sources := ["/proc/self/cwd/\ufffd.css", "file:///proc/self/cwd/%FF.css"] }) := by
    decide
  have htexts : textsAfter (worldOf "\ufffd.css" ".a \x7b x: 1; \x7d") (.ok []) []
      ["/proc/self/cwd/\ufffd.css", "file:///proc/self/cwd/%FF.css"]
      = .ok [("/proc/self/cwd/\ufffd.css", ".a \x7b x: 1; \x7d"),
          ("file:///proc/self/cwd/%FF.css", ".a \x7b x: 1; \x7d")] := by
    decide +kernel
  have halone : textAlone (worldOf "\ufffd.css" ".a \x7b x: 1; \x7d") (.ok [])
      "file:///proc/self/cwd/%FF.css" = .error (.fetch (.io
        ⟨Text.Utf8.encode "/proc/self/cwd/" ++ 0xFF :: Text.Utf8.encode ".css"⟩
        ReadError.notFound.message)) := by
    decide +kernel
  obtain ⟨hprinted, -, hexit⟩ := call_of_texts hparse rfl (textsOf_iff.mpr htexts) rfl
  refine ⟨_, _, _, _, _, hparse, by simp, halone, ?_, ?_⟩
  · rw [Ne, hexit]
    simp
  · rw [hprinted]
    decide +kernel

end CommandLine

end FlatSheet
