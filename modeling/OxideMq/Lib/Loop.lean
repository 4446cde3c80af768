import Mathlib.Tactic.Common

/-! Loops that need not end. -/

namespace OxideMq.Lib

inductive Turn (σ ρ : Type) where
  | next (s : σ)
  | exit (r : ρ)
  deriving DecidableEq, Repr

namespace Loop

variable {σ ρ : Type} {turn : σ → Turn σ ρ} {s t u : σ} {r r' : ρ}
variable {I : σ → Prop}

def after (turn : σ → Turn σ ρ) : ℕ → σ → Turn σ ρ
  | 0, s => .next s
  | n + 1, s =>
      match turn s with
      | .next t => after turn n t
      | .exit r => .exit r

def Gives (turn : σ → Turn σ ρ) (s : σ) (r : ρ) : Prop := ∃ n, after turn n s = .exit r

def Ends (turn : σ → Turn σ ρ) (s : σ) : Prop := ∃ r, Gives turn s r

def Reaches (turn : σ → Turn σ ρ) (s t : σ) : Prop := ∃ n, after turn n s = .next t

theorem after_succ_next (h : turn s = .next t) (n : ℕ) : after turn (n + 1) s = after turn n t := by
  rw [after, h]

theorem gives_of_exit (h : turn s = .exit r) : Gives turn s r := ⟨1, by rw [after, h]⟩

theorem gives_iff_of_next (h : turn s = .next t) : Gives turn s r ↔ Gives turn t r := by
  constructor
  · rintro ⟨n, hn⟩
    cases n with
    | zero => exact absurd hn nofun
    | succ n => exact ⟨n, (after_succ_next h n).symm.trans hn⟩
  · rintro ⟨n, hn⟩
    exact ⟨n + 1, (after_succ_next h n).trans hn⟩

theorem ends_iff_of_next (h : turn s = .next t) : Ends turn s ↔ Ends turn t :=
  exists_congr fun _ => gives_iff_of_next h

theorem Reaches.refl (s : σ) : Reaches turn s s := ⟨0, rfl⟩

theorem reaches_of_next (h : turn s = .next t) (ht : Reaches turn t u) : Reaches turn s u := by
  obtain ⟨n, hn⟩ := ht
  exact ⟨n + 1, (after_succ_next h n).trans hn⟩

theorem Reaches.head_induction {P : σ → Prop} (h : Reaches turn s t) (hlast : P t)
    (hback : ∀ s u, turn s = .next u → P u → P s) : P s := by
  obtain ⟨n, hn⟩ := h
  induction n generalizing s with
  | zero => exact Turn.next.inj hn ▸ hlast
  | succ n ih =>
    cases hturn : turn s with
    | next u =>
      rw [after_succ_next hturn] at hn
      exact hback s u hturn (ih hn)
    | exit r =>
      rw [after, hturn] at hn
      cases hn

theorem Reaches.trans (h : Reaches turn s t) (h' : Reaches turn t u) : Reaches turn s u :=
  h.head_induction h' fun _ _ hturn hu => reaches_of_next hturn hu

theorem Reaches.gives_iff (h : Reaches turn s t) : Gives turn s r ↔ Gives turn t r :=
  h.head_induction Iff.rfl fun _ _ hturn hu => (gives_iff_of_next hturn).trans hu

theorem Reaches.invariant (hkeep : ∀ s t, I s → turn s = .next t → I t) (h : Reaches turn s t) :
    I s → I t :=
  h.head_induction (P := fun s => I s → I t) id fun s u hturn hu hs => hu (hkeep s u hs hturn)

theorem Gives.exists_exit (h : Gives turn s r) : ∃ t, Reaches turn s t ∧ turn t = .exit r := by
  obtain ⟨n, hn⟩ := h
  induction n generalizing s with
  | zero => exact absurd hn nofun
  | succ n ih =>
    cases hturn : turn s with
    | next t =>
      obtain ⟨u, hu, hexit⟩ := ih ((after_succ_next hturn n).symm.trans hn)
      exact ⟨u, reaches_of_next hturn hu, hexit⟩
    | exit q =>
      rw [after, hturn] at hn
      exact ⟨s, .refl s, hturn.trans hn⟩

theorem Gives.unique (h : Gives turn s r) (h' : Gives turn s r') : r = r' := by
  obtain ⟨t, hreach, hexit⟩ := h.exists_exit
  obtain ⟨n, hn⟩ := hreach.gives_iff.mp h'
  cases n with
  | zero => exact absurd hn nofun
  | succ n =>
    rw [after, hexit] at hn
    exact Turn.exit.inj hn

theorem Gives.of_invariant {Q : ρ → Prop} (hkeep : ∀ s t, I s → turn s = .next t → I t)
    (hexit : ∀ s r, I s → turn s = .exit r → Q r) (h : Gives turn s r) (hs : I s) : Q r := by
  obtain ⟨t, hreach, hturn⟩ := h.exists_exit
  exact hexit t r (hreach.invariant hkeep hs) hturn

section

variable {turn' : σ → Turn σ ρ} {I : σ → Prop}

theorem after_congr (heq : ∀ s, I s → turn s = turn' s)
    (hkeep : ∀ s t, I s → turn' s = .next t → I t) (hs : I s) (n : ℕ) :
    after turn n s = after turn' n s := by
  induction n generalizing s with
  | zero => rfl
  | succ n ih =>
    rw [after, after, heq s hs]
    cases hturn : turn' s with
    | next t => exact ih (hkeep s t hs hturn)
    | exit r => rfl

theorem gives_congr (heq : ∀ s, I s → turn s = turn' s)
    (hkeep : ∀ s t, I s → turn' s = .next t → I t) (hs : I s) :
    Gives turn s r ↔ Gives turn' s r :=
  exists_congr fun n => by rw [after_congr heq hkeep hs n]

end

theorem ends_of_measure (μ : σ → ℕ) (hstep : ∀ s t, I s → turn s = .next t → I t ∧ μ t < μ s)
    (hs : I s) : Ends turn s := by
  generalize hμ : μ s = m
  induction m using Nat.strongRecOn generalizing s with
  | ind m ih =>
    cases hturn : turn s with
    | next t =>
      obtain ⟨ht, hlt⟩ := hstep s t hs hturn
      obtain ⟨r, hr⟩ := ih (μ t) (hμ ▸ hlt) ht rfl
      exact ⟨r, (gives_iff_of_next hturn).mpr hr⟩
    | exit r => exact ⟨r, gives_of_exit hturn⟩

def Advances (turn : σ → Turn σ ρ) (position : σ → ℕ) (s : σ) : Prop :=
  ∀ t u, Reaches turn s t → turn t = .next u → position t < position u

theorem advances_of_step {pos : σ → ℕ}
    (hstep : ∀ s t, I s → turn s = .next t → I t ∧ pos s < pos t) (hs : I s) :
    Advances turn pos s := fun t u hreach hturn =>
  (hstep t u (hreach.invariant (fun s t hs h => (hstep s t hs h).1) hs) hturn).2

theorem ends_of_bounded {pos : σ → ℕ} {bound : ℕ}
    (hstep : ∀ s t, I s → turn s = .next t → I t ∧ pos s < pos t)
    (hbd : ∀ s, I s → pos s ≤ bound) (hs : I s) : Ends turn s := by
  refine ends_of_measure (fun s => bound - pos s) (fun s t hs h => ?_) hs
  obtain ⟨ht, hlt⟩ := hstep s t hs h
  have hle := hbd t ht
  exact ⟨ht, by omega⟩

theorem not_ends_of_progress (hstep : ∀ s, I s → ∃ t, turn s = .next t ∧ I t) (hs : I s) :
    ¬ Ends turn s := by
  rintro ⟨r, n, hn⟩
  induction n generalizing s with
  | zero => exact absurd hn nofun
  | succ n ih =>
    obtain ⟨t, hturn, ht⟩ := hstep s hs
    rw [after_succ_next hturn] at hn
    exact ih ht hn

end Loop

end OxideMq.Lib
