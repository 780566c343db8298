import OpenApi.Defaults
import OpenApi.Proofs.Schema.Related
import Mathlib.Data.List.Induction
import Mathlib.Data.List.TakeWhile
/-! # Where a default comes from

The defaults are changed one after the other: fields are set, the environment is laid over them, and all
are reset. A setting is what the newest change that has a say in it says, be it a value or its variable.
So a value that was set gives way to the environment when that is laid over it later, and only then. -/
namespace OpenApi.Defaults

/-- A change of the defaults, of which the last one lays the environment over them. -/
inductive Change where
  | set (fields : Entries Key Value)
  | setBaseUrl (url : Value)
  | setToken (token : Value)
  | reset
  | resolve

namespace Change

def apply (env : Environment) (d : Defaults) : Change → Except Fault Defaults
  | set fields => d.override fields
  | setBaseUrl url => d.setBaseUrl url
  | setToken token => d.setToken token
  | reset => .ok builtIn
  | resolve => d.overlay env

def fields : Change → Entries Key Value
  | set fields => fields
  | setBaseUrl url => [("base_url", url)]
  | setToken token => [("token", token)]
  | reset => []
  | resolve => []

def isReset : Change → Bool
  | reset => true
  | _ => false

def isResolve : Change → Bool
  | resolve => true
  | _ => false

end Change

def after (env : Environment) (changes : List Change) : Except Fault Defaults :=
  changes.foldlM (Change.apply env) builtIn

/-- The changes since the last reset, the newest one first. -/
def recent (changes : List Change) : List Change := changes.reverse.takeWhile fun c => !c.isReset

theorem override_eq_ok {d e : Defaults} {fields : Entries Key Value} (h : d.override fields = .ok e) :
    d.withFields fields = .ok e := by
  unfold override at h
  split at h
  · rename_i hd
    exact hd.trans h
  · cases h

theorem withFields_eq_ok {d e : Defaults} {fields : Entries Key Value}
    (h : d.withFields fields = .ok e) :
    pick fields "base_url" Field.text d.baseUrl = .ok e.baseUrl ∧
      pick fields "token" Field.optionalText d.token = .ok e.token ∧
      pick fields "timeout" Field.number d.timeout = .ok e.timeout := by
  obtain ⟨_, hurl, h⟩ := bind_eq_ok.mp h
  obtain ⟨_, -, h⟩ := bind_eq_ok.mp h
  obtain ⟨_, htoken, h⟩ := bind_eq_ok.mp h
  obtain ⟨_, htimeout, h⟩ := bind_eq_ok.mp h
  obtain ⟨_, -, h⟩ := bind_eq_ok.mp h
  cases h
  exact ⟨hurl, htoken, htimeout⟩

def timeoutOfText (text : String) : Except Fault Float :=
  match Decimal.readFloat? text with
  | some x => .ok x
  | none => .error (.badTimeout text)

theorem timeoutOf_eq (env : Environment) :
    timeoutOf env = match given? env "CODECAPI_TIMEOUT" with
      | none => .ok none
      | some text => (timeoutOfText text).map some := by
  unfold timeoutOf timeoutOfText
  cases given? env "CODECAPI_TIMEOUT" with
  | none => rfl
  | some text =>
    dsimp only
    cases Decimal.readFloat? text <;> rfl

/-- A setting has a field, in which it is set, and an environment variable, and the two are read in their
own ways. -/
structure Setting (α : Type) where
  name : String
  source : String
  get : Defaults → α
  read : Value → Except Fault α
  ofText : String → Except Fault α
  get_of_withFields : ∀ {d e : Defaults} {fields : Entries Key Value}, d.withFields fields = .ok e →
    pick fields name read (get d) = .ok (get e)
  get_of_overlay : ∀ {d e : Defaults} {env : Environment}, d.overlay env = .ok e →
    ((given? env source).map ofText).getD (.ok (get d)) = .ok (get e)

namespace Setting

def baseUrl : Setting String where
  name := "base_url"
  source := "CODECAPI_BASE_URL"
  get := Defaults.baseUrl
  read := Field.text
  ofText := .ok
  get_of_withFields h := (withFields_eq_ok h).1
  get_of_overlay {d e env} h := by
    obtain ⟨_, -, h⟩ := bind_eq_ok.mp h
    cases h
    cases given? env "CODECAPI_BASE_URL" <;> rfl

def token : Setting (Option String) where
  name := "token"
  source := "CODECAPI_TOKEN"
  get := Defaults.token
  read := Field.optionalText
  ofText text := .ok (some text)
  get_of_withFields h := (withFields_eq_ok h).2.1
  get_of_overlay {d e env} h := by
    obtain ⟨_, -, h⟩ := bind_eq_ok.mp h
    cases h
    cases given? env "CODECAPI_TOKEN" <;> rfl

def timeout : Setting Float where
  name := "timeout"
  source := "CODECAPI_TIMEOUT"
  get := Defaults.timeout
  read := Field.number
  ofText := timeoutOfText
  get_of_withFields h := (withFields_eq_ok h).2.2
  get_of_overlay {d e env} h := by
    obtain ⟨timeout, htimeout, h⟩ := bind_eq_ok.mp h
    cases h
    rw [timeoutOf_eq] at htimeout
    cases hv : given? env "CODECAPI_TIMEOUT" with
    | none =>
      rw [hv] at htimeout
      cases htimeout
      rfl
    | some text =>
      rw [hv] at htimeout
      cases hx : timeoutOfText text with
      | error f =>
        simp only [hx] at htimeout
        cases htimeout
      | ok x =>
        simp only [hx] at htimeout
        cases htimeout
        exact hx

section Rules

variable {α : Type} (s : Setting α) (env : Environment)

def set? (c : Change) : Option Value := c.fields.get? (.str s.name)

def said? (c : Change) : Option (Except Fault α) :=
  ((s.set? c).map s.read).or (if c.isResolve then (given? env s.source).map s.ofText else none)

/-- The value that is documented: the newest one that was set since the last reset; otherwise that of the
variable, if the environment was laid over the defaults since then; otherwise the built-in one. -/
def documented (changes : List Change) : Except Fault α :=
  match (recent changes).findSome? s.set? with
  | some v => s.read v
  | none =>
    match given? env s.source with
    | some text => if (recent changes).any Change.isResolve then s.ofText text else .ok (s.get builtIn)
    | none => .ok (s.get builtIn)

def sinceSet (changes : List Change) : List Change :=
  (recent changes).takeWhile fun c => (s.set? c).isNone

/-- The newest value that was set is `v`, and since then the environment was laid over the defaults, in
which the variable is `text`. -/
structure Overruled (changes : List Change) (v : Value) (text : String) : Prop where
  newest : (recent changes).findSome? s.set? = some v
  resolved : (s.sinceSet changes).any Change.isResolve = true
  given : given? env s.source = some text

/-- If the newest value that was set is overruled, then by one that is read alike. -/
def Stands (changes : List Change) : Prop :=
  ∀ v text, s.Overruled env changes v text → s.read v = s.ofText text

variable {s env}

theorem apply_of_isReset {c : Change} {d e : Defaults} (hc : c.isReset = true)
    (h : c.apply env d = .ok e) : e = builtIn := by
  cases c with
  | reset => exact (Except.ok.inj h).symm
  | _ => cases hc

/-- A change other than a reset says what the setting is, or leaves it as it is. -/
theorem get_of_apply {c : Change} {d e : Defaults} (hc : c.isReset = false)
    (h : c.apply env d = .ok e) : (s.said? env c).getD (.ok (s.get d)) = .ok (s.get e) := by
  have hset : ∀ {fields : Entries Key Value}, d.override fields = .ok e → c.fields = fields →
      c.isResolve = false → (s.said? env c).getD (.ok (s.get d)) = .ok (s.get e) := by
    intro fields h hfields hresolve
    have hpick := s.get_of_withFields (override_eq_ok h)
    rw [said?, set?, hfields, hresolve]
    unfold pick at hpick
    cases hv : fields.get? (.str s.name) with
    | none =>
      rw [hv] at hpick
      exact hpick
    | some v =>
      rw [hv] at hpick
      exact hpick
  cases c with
  | set fields => exact hset h rfl rfl
  | setBaseUrl url => exact hset h rfl rfl
  | setToken token => exact hset h rfl rfl
  | reset => cases hc
  | resolve => exact s.get_of_overlay h

theorem recent_append (changes : List Change) (c : Change) :
    recent (changes ++ [c]) = if c.isReset then [] else c :: recent changes := by
  rw [recent, List.reverse_append]
  show (c :: changes.reverse).takeWhile _ = _
  rw [List.takeWhile_cons]
  cases c.isReset <;> rfl

theorem get_after {changes : List Change} {d : Defaults} (h : after env changes = .ok d) :
    ((recent changes).findSome? (s.said? env)).getD (.ok (s.get builtIn)) = .ok (s.get d) := by
  induction changes using List.reverseRecOn generalizing d with
  | nil =>
    cases h
    rfl
  | append_singleton changes c ih =>
    rw [after, List.foldlM_append] at h
    obtain ⟨e, he, h⟩ := bind_eq_ok.mp h
    rw [List.foldlM_cons] at h
    obtain ⟨_, hc, h⟩ := bind_eq_ok.mp h
    cases h
    rw [recent_append]
    cases hreset : c.isReset with
    | true =>
      rw [apply_of_isReset hreset hc]
      rfl
    | false =>
      have hstep := s.get_of_apply hreset hc
      rw [if_neg Bool.false_ne_true, List.findSome?_cons]
      cases hsaid : s.said? env c with
      | some r =>
        rw [hsaid] at hstep
        exact hstep
      | none =>
        rw [hsaid] at hstep
        exact (ih he).trans hstep

/-- The variable has a say only since a value was set, and otherwise that value has. -/
theorem findSome?_said (l : List Change) :
    l.findSome? (s.said? env) =
      (if (l.takeWhile fun c => (s.set? c).isNone).any Change.isResolve then
        (given? env s.source).map s.ofText else none).or ((l.findSome? s.set?).map s.read) := by
  induction l with
  | nil => rfl
  | cons c l ih =>
    rw [List.findSome?_cons, List.findSome?_cons, List.takeWhile_cons, ih, said?]
    cases hc : s.set? c with
    | some v => rfl
    | none =>
      cases hr : c.isResolve with
      | false => simp [hr]
      | true => cases given? env s.source <;> simp [hr]

theorem documented_iff_stands {changes : List Change} {d : Defaults} (h : after env changes = .ok d) :
    s.documented env changes = .ok (s.get d) ↔ s.Stands env changes := by
  have hget := s.get_after h
  rw [findSome?_said] at hget
  rw [documented]
  cases hset : (recent changes).findSome? s.set? with
  | none =>
    have hall : (recent changes).takeWhile (fun c => (s.set? c).isNone) = recent changes := by
      rw [List.takeWhile_eq_self_iff]
      intro c hc
      rw [List.findSome?_eq_none_iff.mp hset c hc]
      rfl
    rw [hset, hall] at hget
    refine iff_of_true ?_ fun v text ho => ?_
    · cases hv : given? env s.source with
      | none =>
        simpa [hv] using hget
      | some text =>
        simp only [hv] at hget ⊢
        split
        · rename_i hr
          simpa [hr] using hget
        · rename_i hr
          simpa [hr] using hget
    · rw [ho.newest] at hset
      cases hset
  | some v =>
    rw [hset, ← sinceSet] at hget
    cases hresolved : (s.sinceSet changes).any Change.isResolve with
    | false =>
      rw [hresolved] at hget
      refine iff_of_true hget fun v text ho => ?_
      rw [ho.resolved] at hresolved
      cases hresolved
    | true =>
      rw [hresolved] at hget
      cases hgiven : given? env s.source with
      | none =>
        rw [hgiven] at hget
        refine iff_of_true hget fun v text ho => ?_
        rw [ho.given] at hgiven
        cases hgiven
      | some text =>
        rw [hgiven] at hget
        have hget : s.ofText text = .ok (s.get d) := hget
        rw [← hget]
        refine ⟨fun hv v' text' ho => ?_, fun ho => ho v text ⟨hset, hresolved, hgiven⟩⟩
        obtain rfl : v = v' := Option.some.inj (hset.symm.trans ho.newest)
        obtain rfl : text = text' := Option.some.inj (hgiven.symm.trans ho.given)
        exact hv

end Rules

end Setting

/-- Each of the settings is what is documented. -/
structure Documented (env : Environment) (changes : List Change) (d : Defaults) : Prop where
  baseUrl : Setting.baseUrl.documented env changes = .ok d.baseUrl
  token : Setting.token.documented env changes = .ok d.token
  timeout : Setting.timeout.documented env changes = .ok d.timeout

/-- After any run of changes the settings are what is documented exactly if, for each of them, the newest
value that was set stands: the environment is laid over the defaults before it, or does not differ. -/
theorem documented_iff {env : Environment} {changes : List Change} {d : Defaults}
    (h : after env changes = .ok d) :
    Documented env changes d ↔ Setting.baseUrl.Stands env changes ∧
      Setting.token.Stands env changes ∧ Setting.timeout.Stands env changes := by
  have hurl := Setting.baseUrl.documented_iff_stands h
  have htoken := Setting.token.documented_iff_stands h
  have htimeout := Setting.timeout.documented_iff_stands h
  constructor
  · rintro ⟨hu, ht, hm⟩
    exact ⟨hurl.mp hu, htoken.mp ht, htimeout.mp hm⟩
  · rintro ⟨hu, ht, hm⟩
    exact ⟨hurl.mpr hu, htoken.mpr ht, htimeout.mpr hm⟩

def testEnvironment : Environment :=
  [("CODECAPI_BASE_URL", "https://env.test"), ("CODECAPI_TOKEN", "secret")]

def environmentThenUrl : List Change := [.resolve, .setBaseUrl (.str "https://set.test")]

theorem after_environmentThenUrl : after testEnvironment environmentThenUrl =
    .ok { builtIn with baseUrl := "https://set.test", token := some "secret" } := rfl

theorem documented_environmentThenUrl : Documented testEnvironment environmentThenUrl
    { builtIn with baseUrl := "https://set.test", token := some "secret" } := by
  refine (documented_iff after_environmentThenUrl).mpr ⟨?_, ?_, ?_⟩
  · rintro v text ⟨-, hresolved, -⟩
    cases hresolved
  · rintro v text ⟨hnewest, -, -⟩
    cases hnewest
  · rintro v text ⟨hnewest, -, -⟩
    cases hnewest

/-- A value of its own first, and then the environment, which takes its place. -/
theorem not_documented_urlThenEnvironment :
    ¬ ∀ (env : Environment) (changes : List Change) (d : Defaults), after env changes = .ok d →
      Documented env changes d := by
  intro h
  have hrun : after [("CODECAPI_BASE_URL", "https://env.test")]
      [.setBaseUrl (.str "https://set.test"), .resolve] =
      .ok { builtIn with baseUrl := "https://env.test" } := rfl
  have hurl := (h _ _ _ hrun).baseUrl
  have hset : "https://set.test" = "https://env.test" := Except.ok.inj hurl
  exact absurd hset (by decide)

end OpenApi.Defaults
