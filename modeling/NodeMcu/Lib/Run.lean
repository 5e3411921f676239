namespace NodeMcu.Lib.Run

variable {σ ι : Type} (step : σ → ι → σ)

/-- The state reached after a list of inputs. -/
def run (s : σ) (is : List ι) : σ := is.foldl step s

/-- `P` holds of every input and the state it meets. -/
def Along (P : σ → ι → Prop) : σ → List ι → Prop
  | _, [] => True
  | s, i :: is => P s i ∧ Along P (step s i) is

instance decidableAlong (P : σ → ι → Prop) [∀ s i, Decidable (P s i)] :
    ∀ s is, Decidable (Along step P s is)
  | _, [] => isTrue trivial
  | s, i :: is => @instDecidableAnd (P s i) _ _ (decidableAlong P (step s i) is)

@[simp] theorem run_nil (s : σ) : run step s [] = s := rfl

@[simp] theorem run_cons (s : σ) (i : ι) (is : List ι) :
    run step s (i :: is) = run step (step s i) is := rfl

theorem run_append (s : σ) (is js : List ι) :
    run step s (is ++ js) = run step (run step s is) js := List.foldl_append

theorem preserved (I : σ → Prop) (h : ∀ s i, I s → I (step s i)) (s : σ) (is : List ι)
    (hs : I s) : I (run step s is) := by
  induction is generalizing s with
  | nil => exact hs
  | cons i is ih => exact ih _ (h s i hs)

theorem along_imp (P Q : σ → ι → Prop) (h : ∀ s i, P s i → Q s i) (s : σ) (is : List ι)
    (hp : Along step P s is) : Along step Q s is := by
  induction is generalizing s with
  | nil => trivial
  | cons i is ih => exact ⟨h s i hp.1, ih _ hp.2⟩

theorem along_and {P Q : σ → ι → Prop} {s : σ} {is : List ι} (hp : Along step P s is)
    (hq : Along step Q s is) : Along step (fun s i => P s i ∧ Q s i) s is := by
  induction is generalizing s with
  | nil => trivial
  | cons i is ih => exact ⟨⟨hp.1, hq.1⟩, ih hp.2 hq.2⟩

/-- What every step preserves under its condition holds in every state reached. -/
theorem along_invariant (P : σ → ι → Prop) (I : σ → Prop)
    (h : ∀ s i, I s → P s i → I (step s i)) (s : σ) (is : List ι) (hs : I s)
    (hp : Along step P s is) : Along step (fun s i => I (step s i)) s is := by
  induction is generalizing s with
  | nil => trivial
  | cons i is ih =>
    have hi := h s i hs hp.1
    exact ⟨hi, ih _ hi hp.2⟩

/-- The state at the end of a run whose steps meet their condition. -/
theorem run_invariant (P : σ → ι → Prop) (I : σ → Prop)
    (h : ∀ s i, I s → P s i → I (step s i)) (s : σ) (is : List ι) (hs : I s)
    (hp : Along step P s is) : I (run step s is) := by
  induction is generalizing s with
  | nil => exact hs
  | cons i is ih => exact ih _ (h s i hs hp.1) hp.2

/-- What the steps of a run give, one after the other. -/
def gather {β : Type} (f : σ → ι → List β) : σ → List ι → List β
  | _, [] => []
  | s, i :: is => f s i ++ gather f (step s i) is

open List in
/-- Where each step keeps account of what comes and goes, a run does. -/
theorem gather_account {β : Type} (read : σ → List β) (added taken : σ → ι → List β)
    (h : ∀ s i, (read s ++ added s i).Perm (read (step s i) ++ taken s i)) (s : σ)
    (is : List ι) :
    (read s ++ gather step added s is).Perm (read (run step s is) ++ gather step taken s is) := by
  induction is generalizing s with
  | nil => exact .refl _
  | cons i is ih =>
    rw [gather, gather, run_cons]
    calc read s ++ (added s i ++ gather step added (step s i) is)
        _ = read s ++ added s i ++ gather step added (step s i) is := (List.append_assoc ..).symm
        _ ~ read (step s i) ++ taken s i ++ gather step added (step s i) is :=
          (h s i).append_right _
        _ ~ taken s i ++ read (step s i) ++ gather step added (step s i) is :=
          List.perm_append_comm.append_right _
        _ = taken s i ++ (read (step s i) ++ gather step added (step s i) is) :=
          List.append_assoc ..
        _ ~ taken s i ++ (read (run step (step s i) is) ++ gather step taken (step s i) is) :=
          (ih _).append_left _
        _ ~ read (run step (step s i) is) ++ (taken s i ++ gather step taken (step s i) is) :=
          List.perm_append_comm_assoc ..

/-- What two readings of the steps give is the same where an invariant makes it so. -/
theorem gather_congr {β : Type} (P : σ → ι → Prop) (I : σ → Prop)
    (hstep : ∀ s i, I s → P s i → I (step s i)) (f g : σ → ι → List β)
    (h : ∀ s i, I s → f s i = g s i) (s : σ) (is : List ι) (hs : I s) (hp : Along step P s is) :
    gather step f s is = gather step g s is := by
  induction is generalizing s with
  | nil => rfl
  | cons i is ih => rw [gather, gather, h s i hs, ih _ (hstep s i hs hp.1) hp.2]

/-- What is read after each step is in order when every step keeps the order. -/
theorem pairwise_gather {β : Type} (R : β → β → Prop) (htrans : ∀ a b c, R a b → R b c → R a c)
    (read : σ → β) (s : σ) (is : List ι) :
    (read s :: gather step (fun s i => [read (step s i)]) s is).Pairwise R ↔
      Along step (fun s i => R (read s) (read (step s i))) s is := by
  induction is generalizing s with
  | nil => simp [gather, Along]
  | cons i is ih =>
    rw [gather, List.singleton_append, List.pairwise_cons, ih, Along]
    constructor
    · rintro ⟨hall, halong⟩
      exact ⟨hall _ List.mem_cons_self, halong⟩
    · rintro ⟨hfirst, halong⟩
      refine ⟨?_, halong⟩
      intro b hb
      obtain rfl | hb := List.mem_cons.mp hb
      · exact hfirst
      · exact htrans _ _ _ hfirst ((List.pairwise_cons.mp ((ih _).mpr halong)).1 b hb)

theorem along_of_forall (P : σ → ι → Prop) (h : ∀ s i, P s i) (s : σ) (is : List ι) :
    Along step P s is := by
  induction is generalizing s with
  | nil => trivial
  | cons i is ih => exact ⟨h s i, ih _⟩

/-- A condition on the inputs alone. -/
theorem along_const_iff (Q : ι → Prop) (s : σ) (is : List ι) :
    Along step (fun _ i => Q i) s is ↔ ∀ i ∈ is, Q i := by
  induction is generalizing s with
  | nil => simp [Along]
  | cons i is ih => rw [Along, ih, List.forall_mem_cons]

/-- Conditions that agree in the states of an invariant agree along a run that meets a third. -/
theorem along_congr_of (C P Q : σ → ι → Prop) (I : σ → Prop)
    (h : ∀ s i, I s → C s i → (P s i ↔ Q s i))
    (hstep : ∀ s i, I s → C s i → P s i → I (step s i)) (s : σ) (is : List ι) (hs : I s)
    (hc : Along step C s is) : Along step P s is ↔ Along step Q s is := by
  induction is generalizing s with
  | nil => exact Iff.rfl
  | cons i is ih =>
    constructor
    · rintro ⟨h1, h2⟩
      exact ⟨(h s i hs hc.1).mp h1, (ih _ (hstep s i hs hc.1 h1) hc.2).mp h2⟩
    · rintro ⟨h1, h2⟩
      have hp := (h s i hs hc.1).mpr h1
      exact ⟨hp, (ih _ (hstep s i hs hc.1 hp) hc.2).mpr h2⟩

/-- Conditions that agree in the states of an invariant agree along a run. -/
theorem along_congr (P Q : σ → ι → Prop) (I : σ → Prop) (h : ∀ s i, I s → (P s i ↔ Q s i))
    (hstep : ∀ s i, I s → P s i → I (step s i)) (s : σ) (is : List ι) (hs : I s) :
    Along step P s is ↔ Along step Q s is :=
  along_congr_of step (fun _ _ => True) P Q I (fun s i hi _ => h s i hi)
    (fun s i hi _ => hstep s i hi) s is hs (along_of_forall step _ (fun _ _ => trivial) s is)

/-- What no step raises by more than one stays below a bound in a run that is short enough. -/
theorem along_lt (count : σ → Nat) (n : Nat) (h : ∀ s i, count (step s i) ≤ count s + 1) (s : σ)
    (is : List ι) (hn : count s + is.length ≤ n) : Along step (fun s _ => count s < n) s is := by
  induction is generalizing s with
  | nil => trivial
  | cons i is ih =>
    have hstep := h s i
    rw [List.length_cons] at hn
    exact ⟨by omega, ih _ (by omega)⟩

end NodeMcu.Lib.Run
