import OpenApi.Client
import Mathlib.Data.List.Induction
import Mathlib.Data.List.Infix
/-! # Contexts of a session

A session is entered and left, by itself or through clients that share it, and requests are sent in
between. It has one place for a connection to keep. So it keeps one while it is inside a context only as
long as no context is left from inside another one: leaving an inner context leaves all of them. -/
namespace OpenApi.Session

/-- What is done with a session. A request may succeed or fail, and a call may fail before it sends one. -/
inductive Step where
  | enter
  | exit
  | enterClient (c : Client)
  | exitClient (c : Client)
  | fetch (process : Defaults) (url : String) (o : CallOptions) (accept : Value)
      (send : Request → Delivery)
  | call (c : Client) (process : Defaults) (o : Operation) (a : Arguments)
      (send : Request → Delivery)

namespace Step

def apply (s : Session) : Step → Session
  | enter => s.enter
  | exit => s.exit
  | enterClient c => c.enter s
  | exitClient c => c.exit s
  | fetch process url o accept send => (s.exchange process url o accept send).2
  | call c process o a send => (c.callIn s process o a send).2

def isEnter : Step → Bool
  | enter | enterClient _ => true
  | _ => false

def isExit : Step → Bool
  | exit | exitClient _ => true
  | _ => false

/-- A step that sends a request, or would do so. -/
def isRequest (x : Step) : Bool := !x.isEnter && !x.isExit

end Step

def after (own : Option Defaults) (steps : List Step) : Session :=
  steps.foldl Step.apply (start own)

def enters (steps : List Step) : Nat := steps.countP Step.isEnter

def exits (steps : List Step) : Nat := steps.countP Step.isExit

def Always (P : List Step → Prop) (steps : List Step) : Prop := ∀ before, before <+: steps → P before

instance {P : List Step → Prop} [DecidablePred P] {steps : List Step} : Decidable (Always P steps) :=
  decidable_of_iff (∀ before ∈ steps.inits, P before) (by simp only [List.mem_inits, Always])

/-- No context is left before it was entered. -/
def WellNested : List Step → Prop := Always fun before => exits before ≤ enters before

/-- A connection is kept exactly while the session is inside a context. -/
def KeepsInside (own : Option Defaults) : List Step → Prop :=
  Always fun before => (after own before).isOpen = true ↔ exits before < enters before

/-- After a context is left, the session is in no other one. -/
def LeavesOutermost : List Step → Prop :=
  Always fun before => before.getLast?.any Step.isExit = true → exits before = enters before

section Steps

variable (s : Session)

/-- A connection that is opened for a request is closed after it, whatever the request comes to. -/
theorem exchange_keeps (process : Defaults) (url : String) (o : CallOptions) (accept : Value)
    (send : Request → Delivery) : (s.exchange process url o accept send).2.kept = s.kept ∧
      (s.exchange process url o accept send).2.live = s.live := by
  cases hk : s.kept with
  | some connection => simp [exchange, acquire, release, hk]
  | none => simp [exchange, acquire, release, connect, close, hk]

theorem call_keeps (c : Client) (process : Defaults) (o : Operation) (a : Arguments)
    (send : Request → Delivery) : (c.callIn s process o a send).2.kept = s.kept ∧
      (c.callIn s process o a send).2.live = s.live := by
  unfold Client.callIn
  cases c.prepare s process o a with
  | error f => exact ⟨rfl, rfl⟩
  | ok p =>
    have hkeeps := s.exchange_keeps process p.url p.options (.str p.accept) send
    dsimp only
    split
    · next heq =>
      rw [heq] at hkeeps
      exact hkeeps
    · next heq =>
      rw [heq] at hkeeps
      exact hkeeps

theorem Step.keeps_of_isRequest {x : Step} (h : x.isRequest = true) :
    (x.apply s).kept = s.kept ∧ (x.apply s).live = s.live := by
  cases x with
  | enter | exit | enterClient | exitClient => cases h
  | fetch process url o accept send => exact s.exchange_keeps process url o accept send
  | call c process o a send => exact s.call_keeps c process o a send

theorem Step.isOpen_of_isRequest {x : Step} (h : x.isRequest = true) :
    (x.apply s).isOpen = s.isOpen := by
  rw [isOpen, isOpen, (Step.keeps_of_isRequest s h).1]

theorem Step.isOpen_of_isEnter {x : Step} (h : x.isEnter = true) : (x.apply s).isOpen = true := by
  cases x with
  | enter | enterClient => rfl
  | exit | exitClient | fetch | call => cases h

theorem isOpen_exit : s.exit.isOpen = false := by
  unfold Session.exit
  split
  · rfl
  · next hnone =>
    rw [isOpen, hnone]
    rfl

theorem Step.isOpen_of_isExit {x : Step} (h : x.isExit = true) : (x.apply s).isOpen = false := by
  cases x with
  | exit | exitClient => exact s.isOpen_exit
  | enter | enterClient | fetch | call => cases h

end Steps

variable {own : Option Defaults} {steps before : List Step}

theorem after_concat (x : Step) : after own (before ++ [x]) = x.apply (after own before) := by
  rw [after, List.foldl_append]
  rfl

theorem enters_concat (x : Step) :
    enters (before ++ [x]) = enters before + if x.isEnter then 1 else 0 := by
  rw [enters, List.countP_append, List.countP_singleton]
  rfl

theorem exits_concat (x : Step) :
    exits (before ++ [x]) = exits before + if x.isExit then 1 else 0 := by
  rw [exits, List.countP_append, List.countP_singleton]
  rfl

/-- The exit empties the place of the connection, so no context may be left to be in. -/
theorem leavesOutermost_of_keepsInside (h : WellNested steps) (hk : KeepsInside own steps) :
    LeavesOutermost steps := by
  intro before
  induction before using List.reverseRecOn with
  | nil =>
    intro _ hexit
    cases hexit
  | append_singleton before x _ =>
    intro hx hexit
    rw [List.getLast?_concat] at hexit
    have hclosed : ¬ (after own (before ++ [x])).isOpen = true := by
      rw [after_concat, Step.isOpen_of_isExit _ hexit]
      exact Bool.false_ne_true
    have houtside := mt (hk _ hx).2 hclosed
    have hnested := h _ hx
    dsimp only at hnested
    omega

theorem keepsInside_of_leavesOutermost (h : WellNested steps) (hl : LeavesOutermost steps)
    (own : Option Defaults) : KeepsInside own steps := by
  intro before
  induction before using List.reverseRecOn with
  | nil =>
    intro _
    constructor
    · intro hopen
      cases hopen
    · intro hlt
      exact absurd hlt (Nat.lt_irrefl 0)
  | append_singleton before x ih =>
    intro hx
    have hbefore : before <+: steps := (List.prefix_append before [x]).trans hx
    have hkept := ih hbefore
    have hnested := h before hbefore
    dsimp only at hkept hnested ⊢
    rw [after_concat]
    by_cases hexit : x.isExit = true
    · have houtermost : exits (before ++ [x]) = enters (before ++ [x]) :=
        hl _ hx (by rwa [List.getLast?_concat])
      rw [Step.isOpen_of_isExit _ hexit, houtermost]
      constructor
      · intro hopen
        cases hopen
      · intro hlt
        exact absurd hlt (Nat.lt_irrefl _)
    by_cases henter : x.isEnter = true
    · rw [Step.isOpen_of_isEnter _ henter, enters_concat, exits_concat, if_pos henter, if_neg hexit]
      constructor
      · intro _
        omega
      · intro _
        rfl
    · have hrequest : x.isRequest = true := by simp [Step.isRequest, henter, hexit]
      rw [Step.isOpen_of_isRequest _ hrequest, enters_concat, exits_concat, if_neg henter, if_neg hexit]
      exact hkept

/-- Of steps that are well nested: a connection is kept exactly while the session is inside a context, if
and only if no context is left from inside another one. Requests and calls never change which connection
is kept, nor leave one of their own open. -/
theorem keepsInside_iff (own : Option Defaults) {steps : List Step} (h : WellNested steps) :
    (KeepsInside own steps ↔ LeavesOutermost steps) ∧
      ∀ (s : Session) (x : Step), x.isRequest = true →
        (x.apply s).isOpen = s.isOpen ∧ (x.apply s).kept = s.kept ∧ (x.apply s).live = s.live := by
  constructor
  · constructor
    · intro hk
      exact leavesOutermost_of_keepsInside h hk
    · intro hl
      exact keepsInside_of_leavesOutermost h hl own
  · intro s x hx
    obtain ⟨hkept, hlive⟩ := Step.keeps_of_isRequest s hx
    exact ⟨Step.isOpen_of_isRequest s hx, hkept, hlive⟩

def idleClient : Client := ⟨⟨"T", "1", .default, [], [], none⟩, false, []⟩

def twoContexts : List Step :=
  [.enter, .fetch .builtIn "https://api.test/a" .default .null (fun _ => .undelivered "refused"), .exit,
    .enterClient idleClient, .exitClient idleClient]

theorem keepsInside_twoContexts : WellNested twoContexts ∧ LeavesOutermost twoContexts ∧
    KeepsInside none twoContexts := by
  have hnested : WellNested twoContexts := by
    unfold WellNested
    decide
  have hleaves : LeavesOutermost twoContexts := by
    unfold LeavesOutermost
    decide
  exact ⟨hnested, hleaves, (keepsInside_iff none hnested).1.2 hleaves⟩

/-- A context inside another one: the connection is gone when the inner one is left. -/
theorem not_keepsInside_entered_twice :
    ¬ ∀ own steps, WellNested steps → KeepsInside own steps := by
  intro h
  have hnested : WellNested [.enter, .enter, .exit] := by
    unfold WellNested
    decide
  have hkeeps := h none _ hnested _ (List.prefix_refl _)
  exact absurd hkeeps (by decide)

end OpenApi.Session
