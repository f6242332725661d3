/-
The addresses that the program runs with.

They are a library that says of itself what is relied on: addresses are equal when they
are written alike, an address on the web begins with its scheme and two slashes, and the
path of a local file begins at the root.

Only the second takes an argument.  An address on the web is never without an authority
(`Whole`), which is what puts the two slashes behind its scheme, and a reference that has
no authority of its own takes over that of its base.
-/
import FlatSheet.Url.Parse

namespace FlatSheet

namespace Url

/-- An address on the web has an authority. -/
def Whole (u : Url) : Prop := isWebScheme u.scheme = true → u.authority.isSome

variable {scheme : String} {cs : List Char} {u base : Url}

theorem parseFromAuthority_eq_ok (h : parseFromAuthority scheme cs = .ok u) :
    u.scheme = scheme ∧ u.authority.isSome := by
  unfold parseFromAuthority at h
  rcases hp : parseAuthority scheme cs with e | ⟨authority, rest⟩
  · rw [hp] at h
    cases h
  · rw [hp] at h
    simp only [bind, Except.bind] at h
    split at h
    · split at h
      · cases h
        exact ⟨rfl, rfl⟩
      · split at h
        · cases h
          exact ⟨rfl, rfl⟩
        · cases h
          exact ⟨rfl, rfl⟩
    · cases h
      exact ⟨rfl, rfl⟩

theorem parseOther_eq_ok (h : parseOther scheme cs = .ok u) : u.scheme = scheme := by
  unfold parseOther at h
  split at h
  · exact (parseFromAuthority_eq_ok h).1
  · cases h
    rfl
  · cases h
    rfl

theorem parseFile_eq_ok (h : parseFile cs = .ok u) : u.scheme = "file" ∧ u.authority.isSome := by
  unfold parseFile at h
  simp only [bind, Except.bind, pure, Except.pure] at h
  split at h
  · split at h
    · cases h
    · cases h
      exact ⟨rfl, rfl⟩
  · cases h
    exact ⟨rfl, rfl⟩

/-- Reading an address keeps its scheme. -/
theorem parseFromScheme_eq_ok (h : parseFromScheme scheme cs = .ok u) :
    u.scheme = scheme ∧ u.Whole := by
  unfold parseFromScheme at h
  split at h
  next hfile =>
    obtain ⟨hscheme, hauthority⟩ := parseFile_eq_ok h
    exact ⟨hscheme.trans hfile.symm, fun _ => hauthority⟩
  next =>
    split at h
    next =>
      obtain ⟨hscheme, hauthority⟩ := parseFromAuthority_eq_ok h
      exact ⟨hscheme, fun _ => hauthority⟩
    next hother =>
      have hscheme := parseOther_eq_ok h
      refine ⟨hscheme, ?_⟩
      intro hweb
      rw [hscheme] at hweb
      exact absurd hweb hother

theorem whole_of_parse {text : String} (h : parse text = .ok u) : u.Whole := by
  unfold parse at h
  split at h
  · exact (parseFromScheme_eq_ok h).2
  · cases h

/-- A reference without a scheme takes over the scheme of its base, and the authority if it has none
of its own. -/
theorem parseRelative_eq_ok (h : parseRelative base cs = .ok u) :
    u.scheme = base.scheme ∧ (u.authority = base.authority ∨ u.authority.isSome) := by
  have hfull : ∀ {ds : List Char}, parseFromAuthority base.scheme ds = .ok u →
      u.scheme = base.scheme ∧ (u.authority = base.authority ∨ u.authority.isSome) := by
    intro ds hds
    obtain ⟨hscheme, hauthority⟩ := parseFromAuthority_eq_ok hds
    exact ⟨hscheme, Or.inr hauthority⟩
  unfold parseRelative at h
  split at h
  · cases h
    exact ⟨rfl, Or.inl rfl⟩
  · cases h
    exact ⟨rfl, Or.inl rfl⟩
  · cases h
    exact ⟨rfl, Or.inl rfl⟩
  · exact hfull h
  · split at h
    · split at h
      · split at h
        · exact hfull h
        · cases h
          exact ⟨rfl, Or.inl rfl⟩
      · cases h
        exact ⟨rfl, Or.inl rfl⟩
    · cases h
      exact ⟨rfl, Or.inl rfl⟩

theorem whole_of_parseRelative (hbase : base.Whole) (h : parseRelative base cs = .ok u) :
    u.Whole := by
  obtain ⟨hscheme, hauthority⟩ := parseRelative_eq_ok h
  intro hweb
  rw [hscheme] at hweb
  rcases hauthority with hsame | hown
  · rw [hsame]
    exact hbase hweb
  · exact hown

theorem whole_of_join {reference : String} (hbase : base.Whole)
    (h : base.join reference = .ok u) : u.Whole := by
  unfold join at h
  split at h
  · dsimp only at h
    split at h
    · exact whole_of_parseRelative hbase h
    · exact (parseFromScheme_eq_ok h).2
  · exact whole_of_parseRelative hbase h

theorem eq_ok_of_mapError {r : Except ParseError Url} {f : ParseError → String}
    (h : r.mapError f = .ok u) : r = .ok u := by
  rcases r with e | v
  · cases h
  · cases h
    rfl

/-- What is obtained from texts and references is whole. -/
theorem whole_of_obtained (h : Addressing.Obtained u) : u.Whole := by
  induction h with
  | parse h => exact whole_of_parse (eq_ok_of_mapError h)
  | join _ h ih => exact whole_of_join ih (eq_ok_of_mapError h)

/-- The path of a local file begins with the slash in front of its first part. -/
theorem isAbsolute_of_filePath? {p : FilePath} (h : u.filePath? = some p) :
    p.isAbsolute = true := by
  -- A slash at the end changes nothing about the one in front.
  have hfront : ∀ (ends : Bool) (more : List UInt8), FilePath.isAbsolute
      ⟨if ends then FilePath.slash :: more ++ [0x2F] else FilePath.slash :: more⟩ = true := by
    intro ends more
    cases ends with
    | false => rfl
    | true => rfl
  unfold Url.filePath? at h
  split at h
  next part parts _ _ =>
    obtain rfl := Option.some.inj h
    exact hfront _ _
  next => cases h

/-- The text of an address begins with its scheme and two slashes. -/
theorem prefix_toString (h : u.authority.isSome) :
    (u.scheme ++ "://").toList <+: (toString u).toList := by
  obtain ⟨authority, hauthority⟩ := Option.isSome_iff_exists.mp h
  show _ <+: (Url.toString u).toList
  unfold Url.toString
  rw [hauthority]
  simp

instance : LawfulAddressing Url where
  beq_iff u v := decide_eq_true_iff
  web_prefix u h hweb := by
    refine prefix_toString (whole_of_obtained h ?_)
    rcases hweb with hscheme | hscheme
    · rw [show u.scheme = "http" from hscheme]
      rfl
    · rw [show u.scheme = "https" from hscheme]
      rfl
  isAbsolute_filePath _ _ := isAbsolute_of_filePath?

end Url

end FlatSheet
