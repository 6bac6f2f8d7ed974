import Mathlib.Logic.Function.Iterate
import Mathlib.Logic.Relation

/-!
# Programs preempted by atomic interrupts

One sequential thread runs over a shared state and is cut at its atomic actions. Between any two
of them an interference relation may change the state. An `Outline` is a proof outline in the
rely/guarantee style: each assertion it mentions is stable under the interference and implies a
state invariant, so that both hold in every configuration the thread can reach.
-/

namespace Not232.Preemption

/-- `loop body k` repeats `body` while it returns `true` and then continues with `k`. -/
inductive Thread (σ : Type) : Type → Type 1
  | ret {α : Type} (a : α) : Thread σ α
  | act {α β : Type} (f : σ → β × σ) (k : β → Thread σ α) : Thread σ α
  | loop {α : Type} (body : Thread σ Bool) (k : Thread σ α) : Thread σ α

variable {σ α β γ : Type}

namespace Thread

def bind : Thread σ α → (α → Thread σ β) → Thread σ β
  | ret a, g => g a
  | act f k, g => act f fun b => (k b).bind g
  | loop body k, g => loop body (k.bind g)

instance : Monad (Thread σ) where
  pure := ret
  bind := bind

def load (g : σ → β) : Thread σ β := act (fun s => (g s, s)) ret

def store (g : σ → σ) : Thread σ Unit := act (fun s => ((), g s)) ret

def whileTrue (body : Thread σ Bool) : Thread σ Unit := loop body (ret ())

/-- One turn of a loop: the body, then the loop again or its continuation. -/
def turn (body : Thread σ Bool) (k : Thread σ α) : Thread σ α :=
  body.bind fun again => if again then loop body k else k

theorem bind_assoc (p : Thread σ α) (g : α → Thread σ β) (h : β → Thread σ γ) :
    (p.bind g).bind h = p.bind fun a => (g a).bind h := by
  induction p with
  | ret a => rfl
  | act f k ih => simp only [bind, ih]
  | loop body k _ ih => simp only [bind, ih]

theorem bind_ret (p : Thread σ α) : p.bind ret = p := by
  induction p with
  | ret a => rfl
  | act f k ih => simp only [bind, ih]
  | loop body k _ ih => simp only [bind, ih]

theorem turn_bind (body : Thread σ Bool) (k : Thread σ α) (g : α → Thread σ β) :
    (turn body k).bind g = turn body (k.bind g) := by
  rw [turn, bind_assoc, turn]
  congr 1
  funext again
  cases again <;> rfl

end Thread

open Thread

/-- A thread together with the shared state. -/
abbrev Config (σ α : Type) := Thread σ α × σ

inductive Step (R : σ → σ → Prop) : Config σ α → Config σ α → Prop
  | act {β : Type} (f : σ → β × σ) (k : β → Thread σ α) (s : σ) :
      Step R (.act f k, s) (k (f s).1, (f s).2)
  | loop (body : Thread σ Bool) (k : Thread σ α) (s : σ) :
      Step R (.loop body k, s) (turn body k, s)
  | interrupt (p : Thread σ α) {s s' : σ} (h : R s s') : Step R (p, s) (p, s')

abbrev Reaches (R : σ → σ → Prop) : Config σ α → Config σ α → Prop :=
  Relation.ReflTransGen (Step R)

variable {R R' : σ → σ → Prop} {I I' : σ → Prop}

theorem Step.mono (hR : ∀ s s', R s s' → R' s s') {c c' : Config σ α} (h : Step R c c') :
    Step R' c c' := by
  cases h with
  | act f k s => exact .act f k s
  | loop body k s => exact .loop body k s
  | interrupt p h => exact .interrupt p (hR _ _ h)

theorem Reaches.mono (hR : ∀ s s', R s s' → R' s s') {c c' : Config σ α} (h : Reaches R c c') :
    Reaches R' c c' := by
  induction h with
  | refl => exact .refl
  | tail _ hst ih => exact ih.tail (hst.mono hR)

/-- An assertion about the shared state that the interference keeps and that implies `I`. -/
structure Assertion (R : σ → σ → Prop) (I : σ → Prop) where
  holds : σ → Prop
  stable : ∀ s s', holds s → R s s' → holds s'
  safe : ∀ s, holds s → I s

namespace Assertion

/-- Adds a fact that the interference cannot change. -/
def and (P : Assertion R I) (F : σ → Prop) (hF : ∀ s s', P.holds s → F s → R s s' → F s') :
    Assertion R I where
  holds s := P.holds s ∧ F s
  stable s s' h hr := ⟨P.stable s s' h.1 hr, hF s s' h.1 h.2 hr⟩
  safe s h := P.safe s h.1

/-- Adds a fact that does not mention the state. -/
def guard (P : Assertion R I) (F : Prop) : Assertion R I :=
  P.and (fun _ => F) fun _ _ _ h _ => h

end Assertion

/-- Proof outlines. `split` chooses, by the state, one of several assertions to go on with. -/
inductive Outline (R : σ → σ → Prop) (I : σ → Prop) :
    {α : Type} → Assertion R I → Thread σ α → (α → Assertion R I) → Prop
  | ret {α : Type} {P : Assertion R I} {Q : α → Assertion R I} {a : α}
      (h : ∀ s, P.holds s → (Q a).holds s) : Outline R I P (.ret a) Q
  | act {α β : Type} {P : Assertion R I} {Q : α → Assertion R I} {f : σ → β × σ}
      {k : β → Thread σ α} (M : β → Assertion R I)
      (hf : ∀ s, P.holds s → (M (f s).1).holds (f s).2)
      (hk : ∀ b, Outline R I (M b) (k b) Q) : Outline R I P (.act f k) Q
  | loop {α : Type} {P : Assertion R I} {Q : α → Assertion R I} {body : Thread σ Bool}
      {k : Thread σ α} (Inv P' : Assertion R I)
      (hP : ∀ s, P.holds s → Inv.holds s)
      (hb : Outline R I Inv body fun again => if again then Inv else P')
      (hk : Outline R I P' k Q) : Outline R I P (.loop body k) Q
  | split {α ι : Type} {P : Assertion R I} {Q : α → Assertion R I} {p : Thread σ α}
      (P' : ι → Assertion R I) (hP : ∀ s, P.holds s → ∃ i, (P' i).holds s)
      (h : ∀ i, Outline R I (P' i) p Q) : Outline R I P p Q

namespace Outline

variable {P P' : Assertion R I} {Q Q' : α → Assertion R I}

theorem weaken {p : Thread σ α} (h : Outline R I P p Q) (hP : ∀ s, P'.holds s → P.holds s) :
    Outline R I P' p Q :=
  .split (fun _ : Unit => P) (fun s hs => ⟨(), hP s hs⟩) fun _ => h

/-- A fact that does not mention the state may be assumed. -/
theorem assume {p : Thread σ α} {F : Prop} (hF : ∀ s, P.holds s → F)
    (h : F → Outline R I P p Q) : Outline R I P p Q :=
  .split (fun _ : {_u : Unit // F} => P) (fun s hs => ⟨⟨(), hF s hs⟩, hs⟩) fun i => h i.2

theorem bind {p : Thread σ α} {g : α → Thread σ β} {M : α → Assertion R I}
    {Q : β → Assertion R I} (hp : Outline R I P p M) (hg : ∀ a, Outline R I (M a) (g a) Q) :
    Outline R I P (p.bind g) Q := by
  induction hp with
  | ret h => exact (hg _).weaken h
  | act M' hf _ ih => exact .act M' hf fun b => ih b hg
  | loop Inv P₁ hi hb _ _ ih => exact .loop Inv P₁ hi hb (ih hg)
  | split P₁ hP _ ih => exact .split P₁ hP fun i => ih i hg

theorem post {p : Thread σ α} (h : Outline R I P p Q)
    (hQ : ∀ a s, (Q a).holds s → (Q' a).holds s) : Outline R I P p Q' := by
  have hb := h.bind (g := .ret) (Q := Q') fun a => .ret (hQ a)
  rwa [bind_ret] at hb

theorem turn {body : Thread σ Bool} {k : Thread σ α} {Inv : Assertion R I}
    (hb : Outline R I Inv body fun again => if again then Inv else P)
    (hk : Outline R I P k Q) : Outline R I Inv (Thread.turn body k) Q := by
  apply hb.bind
  intro again
  cases again with
  | true => exact .loop Inv P (fun _ hs => hs) hb hk
  | false => exact hk

/-- A step of the thread or of the interference leaves a proof outline of what remains. -/
theorem preserved {p p' : Thread σ α} {s s' : σ} (h : Outline R I P p Q) (hs : P.holds s)
    (hst : Step R (p, s) (p', s')) : ∃ P' : Assertion R I, Outline R I P' p' Q ∧ P'.holds s' := by
  induction h with
  | @ret _ P _ _ h =>
    cases hst with
    | interrupt p hr => exact ⟨P, .ret h, P.stable s s' hs hr⟩
  | @act _ _ P _ f k M hf hk =>
    cases hst with
    | act f k s => exact ⟨M (f s).1, hk _, hf s hs⟩
    | interrupt p hr => exact ⟨P, .act M hf hk, P.stable s s' hs hr⟩
  | @loop _ P _ body k Inv P₁ hi hb hk =>
    cases hst with
    | loop body k s => exact ⟨Inv, hb.turn hk, hi s hs⟩
    | interrupt p hr => exact ⟨P, .loop Inv P₁ hi hb hk, P.stable s s' hs hr⟩
  | split P₁ hP _ ih =>
    obtain ⟨i, hi⟩ := hP s hs
    exact ih i hi hst

theorem reaches {p : Thread σ α} {s : σ} {c : Config σ α} (h : Outline R I P p Q)
    (hs : P.holds s) (hc : Reaches R (p, s) c) :
    ∃ P' : Assertion R I, Outline R I P' c.1 Q ∧ P'.holds c.2 := by
  induction hc with
  | refl => exact ⟨P, h, hs⟩
  | tail _ hst ih =>
    rcases ih with ⟨P₁, h₁, hs₁⟩
    exact h₁.preserved hs₁ hst

theorem holds_of_ret {p : Thread σ α} {a : α} {s : σ} (h : Outline R I P p Q)
    (hp : p = .ret a) (hs : P.holds s) : (Q a).holds s := by
  induction h with
  | ret h =>
    cases hp
    exact h s hs
  | act => cases hp
  | loop => cases hp
  | split P₁ hP _ ih =>
    obtain ⟨i, hi⟩ := hP s hs
    exact ih i hp hi

/-- The invariant holds in every configuration reached. -/
theorem invariant {p : Thread σ α} {s : σ} {c : Config σ α} (h : Outline R I P p Q)
    (hs : P.holds s) (hc : Reaches R (p, s) c) : I c.2 := by
  obtain ⟨P', _, hs'⟩ := h.reaches hs hc
  exact P'.safe _ hs'

/-- Interference that is the relied on one wherever the invariant holds. -/
theorem reaches_of_rely {p : Thread σ α} {s : σ} {c : Config σ α} (h : Outline R I P p Q)
    (hs : P.holds s) (hR : ∀ s s', I s → R' s s' → R s s') (hc : Reaches R' (p, s) c) :
    Reaches R (p, s) c := by
  induction hc with
  | refl => exact .refl
  | tail _ hst ih =>
    have hI := h.invariant hs ih
    apply ih.tail
    cases hst with
    | act f k s => exact .act f k s
    | loop body k s => exact .loop body k s
    | interrupt p hr => exact .interrupt p (hR _ _ hI hr)

/-- The postcondition holds from the return of the thread on. -/
theorem returned {p : Thread σ α} {s s' : σ} {a : α} (h : Outline R I P p Q)
    (hs : P.holds s) (hc : Reaches R (p, s) (.ret a, s')) : (Q a).holds s' := by
  obtain ⟨P', h', hs'⟩ := h.reaches hs hc
  exact h'.holds_of_ret rfl hs'

theorem load {g : σ → β} {Q : β → Assertion R I}
    (h : ∀ s, P.holds s → (Q (g s)).holds s) : Outline R I P (Thread.load g) Q :=
  .act Q h fun _ => .ret fun _ hs => hs

theorem load_bind {g : σ → β} {k : β → Thread σ α} (M : β → Assertion R I)
    (h : ∀ s, P.holds s → (M (g s)).holds s) (hk : ∀ b, Outline R I (M b) (k b) Q) :
    Outline R I P (Thread.load g >>= k) Q :=
  bind (load h) hk

/-- A load whose result does not matter. -/
theorem load_skip {g : σ → β} {k : β → Thread σ α} (hk : ∀ b, Outline R I P (k b) Q) :
    Outline R I P (Thread.load g >>= k) Q :=
  load_bind (fun _ => P) (fun _ hs => hs) hk

theorem store {g : σ → σ} {Q : Unit → Assertion R I}
    (h : ∀ s, P.holds s → (Q ()).holds (g s)) : Outline R I P (Thread.store g) Q :=
  .act Q h fun _ => .ret fun _ hs => hs

theorem store_bind {g : σ → σ} {k : Unit → Thread σ α} (M : Assertion R I)
    (h : ∀ s, P.holds s → M.holds (g s)) (hk : Outline R I M (k ()) Q) :
    Outline R I P (Thread.store g >>= k) Q :=
  .act (fun _ => M) h fun _ => hk

theorem whileTrue {body : Thread σ Bool} {Q : Unit → Assertion R I}
    (h : Outline R I P body fun again => if again then P else Q ()) :
    Outline R I P (Thread.whileTrue body) Q :=
  .loop P (Q ()) (fun _ hs => hs) h (.ret fun _ hs => hs)

end Outline

/-! ### What a thread leaves alone -/

/-- No action of the thread changes the value of `g`. -/
inductive Keeps (g : σ → γ) : {α : Type} → Thread σ α → Prop
  | ret {α : Type} (a : α) : Keeps g (.ret a)
  | act {α β : Type} {f : σ → β × σ} {k : β → Thread σ α} (hf : ∀ s, g (f s).2 = g s)
      (hk : ∀ b, Keeps g (k b)) : Keeps g (.act f k)
  | loop {α : Type} {body : Thread σ Bool} {k : Thread σ α} (hb : Keeps g body)
      (hk : Keeps g k) : Keeps g (.loop body k)

namespace Keeps

variable {g : σ → γ}

theorem bind {p : Thread σ α} {q : α → Thread σ β} (hp : Keeps g p) (hq : ∀ a, Keeps g (q a)) :
    Keeps g (p.bind q) := by
  induction hp with
  | ret a => exact hq a
  | act hf _ ih => exact .act hf fun b => ih b hq
  | loop hb _ _ ih => exact .loop hb (ih hq)

theorem load (f : σ → β) : Keeps g (Thread.load f) := .act (fun _ => rfl) fun b => .ret b

theorem store {f : σ → σ} (h : ∀ s, g (f s) = g s) : Keeps g (Thread.store f) :=
  .act h fun b => .ret b

theorem whileTrue {body : Thread σ Bool} (h : Keeps g body) : Keeps g (Thread.whileTrue body) :=
  .loop h (.ret ())

/-- A step of the thread itself changes `g` neither now nor later. -/
theorem step {p p' : Thread σ α} {s s' : σ} (h : Keeps g p)
    (hst : Step (fun _ _ => False) (p, s) (p', s')) : g s' = g s ∧ Keeps g p' := by
  cases h with
  | ret a =>
    cases hst with
    | interrupt p hr => exact hr.elim
  | act hf hk =>
    cases hst with
    | act f k s => exact ⟨hf s, hk _⟩
    | interrupt p hr => exact hr.elim
  | loop hb hk =>
    cases hst with
    | loop body k s =>
      refine ⟨rfl, hb.bind fun again => ?_⟩
      cases again with
      | true => exact .loop hb hk
      | false => exact hk
    | interrupt p hr => exact hr.elim

end Keeps

/-! ### Runs that return -/

theorem Step.bind {c c' : Config σ α} (g : α → Thread σ β) (h : Step R c c') :
    Step R (c.1.bind g, c.2) (c'.1.bind g, c'.2) := by
  cases h with
  | act f k s => exact .act f (fun b => (k b).bind g) s
  | loop body k s =>
    rw [turn_bind]
    exact .loop body (k.bind g) s
  | interrupt p hr => exact .interrupt _ hr

theorem Reaches.bind {c c' : Config σ α} (g : α → Thread σ β) (h : Reaches R c c') :
    Reaches R (c.1.bind g, c.2) (c'.1.bind g, c'.2) := by
  induction h with
  | refl => exact .refl
  | tail _ hst ih => exact ih.tail (hst.bind g)

theorem Reaches.seq {p : Thread σ α} {g : α → Thread σ β} {s s' : σ} {a : α} {c : Config σ β}
    (hp : Reaches R (p, s) (.ret a, s')) (hg : Reaches R (g a, s') c) :
    Reaches R (p.bind g, s) c :=
  (hp.bind g).trans hg

/-- A run of two threads in sequence is still in the first, or the first has returned. -/
theorem Reaches.of_bind {p : Thread σ α} {g : α → Thread σ β} {s : σ} {c : Config σ β}
    (h : Reaches R (p.bind g, s) c) :
    (∃ p' s', Reaches R (p, s) (p', s') ∧ c = (p'.bind g, s')) ∨
      ∃ a s', Reaches R (p, s) (.ret a, s') ∧ Reaches R (g a, s') c := by
  induction h with
  | refl => exact .inl ⟨p, s, .refl, rfl⟩
  | tail _ hst ih =>
    rcases ih with ⟨p', s', hp, rfl⟩ | ⟨a, s', hp, hg⟩
    · cases p' with
      | ret a => exact .inr ⟨a, s', hp, .single hst⟩
      | act f k =>
        cases hst with
        | act f k s => exact .inl ⟨_, _, hp.tail (.act f _ s'), rfl⟩
        | interrupt p hr => exact .inl ⟨_, _, hp.tail (.interrupt _ hr), rfl⟩
      | loop body k =>
        cases hst with
        | loop body k s => exact .inl ⟨_, _, hp.tail (.loop body _ s'), by rw [turn_bind]⟩
        | interrupt p hr => exact .inl ⟨_, _, hp.tail (.interrupt _ hr), rfl⟩
    · exact .inr ⟨a, s', hp, hg.tail hst⟩

/-- The thread's own next step; a thread that has returned stays. -/
def advance : Config σ α → Config σ α
  | (.ret a, s) => (.ret a, s)
  | (.act f k, s) => (k (f s).1, (f s).2)
  | (.loop body k, s) => (turn body k, s)

theorem reaches_advance (R : σ → σ → Prop) (c : Config σ α) : Reaches R c (advance c) := by
  rcases c with ⟨p, s⟩
  cases p with
  | ret a => exact .refl
  | act f k => exact .single (.act f k s)
  | loop body k => exact .single (.loop body k s)

theorem reaches_iterate (R : σ → σ → Prop) (n : ℕ) (c : Config σ α) :
    Reaches R c (advance^[n] c) := by
  induction n generalizing c with
  | zero => exact .refl
  | succ n ih => exact (reaches_advance R c).trans (ih (advance c))

theorem reaches_interrupt (p : Thread σ α) {s s' : σ} (h : R s s') : Reaches R (p, s) (p, s') :=
  .single (.interrupt p h)

/-- A thread without loops, whose own steps are bounded in number. -/
inductive LoopFree : {α : Type} → Thread σ α → Prop
  | ret {α : Type} (a : α) : LoopFree (.ret a)
  | act {α β : Type} (f : σ → β × σ) (k : β → Thread σ α) (h : ∀ b, LoopFree (k b)) :
      LoopFree (.act f k)

namespace LoopFree

theorem bind {p : Thread σ α} {g : α → Thread σ β} (hp : LoopFree p)
    (hg : ∀ a, LoopFree (g a)) : LoopFree (p.bind g) := by
  induction hp with
  | ret a => exact hg a
  | act f k _ ih => exact .act _ _ fun b => ih b

theorem load (g : σ → β) : LoopFree (Thread.load g) := .act _ _ fun b => .ret b

theorem store (g : σ → σ) : LoopFree (Thread.store g) := .act _ _ fun b => .ret b

/-- Left alone, a thread without loops returns. -/
theorem returns {p : Thread σ α} (hp : LoopFree p) (R : σ → σ → Prop) (s : σ) :
    ∃ a s', Reaches R (p, s) (.ret a, s') := by
  induction hp generalizing s with
  | ret a => exact ⟨a, s, .refl⟩
  | act f k _ ih =>
    obtain ⟨a, s', h⟩ := ih (f s).1 (f s).2
    exact ⟨a, s', .head (.act f k s) h⟩

end LoopFree

/-- Some run returns, and with `Q`. -/
def Finishes (R : σ → σ → Prop) (p : Thread σ α) (s : σ) (Q : α → σ → Prop) : Prop :=
  ∃ a s', Reaches R (p, s) (.ret a, s') ∧ Q a s'

namespace Finishes

variable {p : Thread σ α} {s s' : σ} {P : σ → Prop} {Q : α → σ → Prop}

theorem ret {a : α} (h : Q a s) : Finishes R (.ret a) s Q := ⟨a, s, .refl, h⟩

theorem interrupt (hr : R s s') (h : Finishes R p s' Q) : Finishes R p s Q := by
  obtain ⟨a, s₁, hp, hq⟩ := h
  exact ⟨a, s₁, (reaches_interrupt p hr).trans hp, hq⟩

theorem bind {g : α → Thread σ β} {Q' : β → σ → Prop} (hp : Finishes R p s Q)
    (hg : ∀ a s', Q a s' → Finishes R (g a) s' Q') : Finishes R (p.bind g) s Q' := by
  obtain ⟨a, s₁, hp, hq⟩ := hp
  obtain ⟨b, s₂, hg, hq'⟩ := hg a s₁ hq
  exact ⟨b, s₂, hp.seq hg, hq'⟩

/-- A loop finishes when each of its turns finishes and all but the last decrease a measure. -/
theorem whileTrue {body : Thread σ Bool} {Q : Unit → σ → Prop} (μ : σ → ℕ)
    (hb : ∀ s, P s → Finishes R body s fun again s' =>
      if again then P s' ∧ μ s' < μ s else Q () s') (hs : P s) :
    Finishes R (Thread.whileTrue body) s Q := by
  induction hn : μ s using Nat.strongRecOn generalizing s with
  | ind n ih =>
    have hturn : Finishes R (Thread.turn body (.ret ())) s Q := by
      apply (hb s hs).bind
      intro again s' hq
      cases again with
      | true => exact ih (μ s') (hn ▸ hq.2) hq.1 rfl
      | false => exact ret hq
    obtain ⟨a, s', hp, hq⟩ := hturn
    exact ⟨a, s', .head (.loop body (.ret ()) s) hp, hq⟩

end Finishes
end Not232.Preemption
