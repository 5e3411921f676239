import Mathlib.Data.List.Chain

namespace NodeMcu.Lib.Descent

/-! A set of bit words is a tree. A search that goes down once, to the left at each fork but for
those of its last way down and the one where it turned last, finds the words one after the other. -/

abbrev Word := List Bool

/-- The rest of a word that begins with `b`. -/
def behind (b : Bool) : Word → Option Word
  | [] => none
  | c :: w => if c = b then some w else none

/-- What is left of the words that begin with `b`. -/
def below (b : Bool) (S : List Word) : List Word := S.filterMap (behind b)

@[simp] theorem mem_below {b : Bool} {S : List Word} {w : Word} : w ∈ below b S ↔ b :: w ∈ S := by
  rw [below, List.mem_filterMap]
  constructor
  · rintro ⟨v, hv, h⟩
    match v, h with
    | c :: u, h =>
      obtain ⟨hc, hu⟩ := Option.ite_none_right_eq_some.mp h
      subst hc
      cases hu
      exact hv
  · exact fun h => ⟨b :: w, h, if_pos rfl⟩

def Sized (n : Nat) (S : List Word) : Prop := ∀ w ∈ S, w.length = n

theorem Sized.below {n : Nat} {S : List Word} (h : Sized (n + 1) S) (b : Bool) :
    Sized n (below b S) := fun w hw => Nat.succ.inj (h (b :: w) (mem_below.mp hw))

/-- The words of length `n`, each once, those that begin with 0 in front. -/
def inOrder : Nat → List Word → List Word
  | 0, S => if [] ∈ S then [[]] else []
  | n + 1, S =>
    (inOrder n (below false S)).map (false :: ·) ++ (inOrder n (below true S)).map (true :: ·)

/-- The last place, counted from `pos`, where a word goes left and others go right: 0 without
one. -/
def turn : Nat → List Word → Word → Nat
  | _, _, [] => 0
  | pos, S, b :: w =>
    if turn (pos + 1) (below b S) w ≠ 0 then turn (pos + 1) (below b S) w
    else if b = false ∧ below true S ≠ [] then pos
    else 0

/-- The direction at a fork: the one of the last way down in front of the last turn, right
there, left behind it. -/
def choice (last pos : Nat) (previous : Bool) : Bool :=
  if pos < last then previous else pos == last

/-- One way down, with the last fork at which it went left. There is none where no word is
left. -/
def descend (last : Nat) : Nat → Nat → List Word → Word → Nat → Option (Word × Nat)
  | 0, _, _, _, left => some ([], left)
  | n + 1, pos, S, previous, left =>
    let down (b : Bool) (left : Nat) :=
      (descend last n (pos + 1) (below b S) previous.tail left).map fun r => (b :: r.1, r.2)
    if below false S = [] then
      if below true S = [] then none else down true left
    else if below true S = [] then down false left
    else
      let b := choice last pos (previous.headD false)
      down b (if b then left else pos)

/-! ## The words in order -/

section Order

variable {n : Nat} {S : List Word}

theorem mem_inOrder (h : Sized n S) (w : Word) : w ∈ inOrder n S ↔ w ∈ S := by
  induction n generalizing S w with
  | zero =>
    rw [inOrder]
    constructor
    · intro hw
      split at hw
      case isTrue hnil => rw [List.mem_singleton.mp hw]; exact hnil
      case isFalse => exact absurd hw List.not_mem_nil
    · intro hw
      have hnil := List.length_eq_zero_iff.mp (h w hw)
      subst hnil
      rw [if_pos hw]
      exact List.mem_singleton_self _
  | succ n ih =>
    rw [inOrder, List.mem_append, List.mem_map, List.mem_map]
    simp only [ih (h.below _), mem_below]
    constructor
    · rintro (⟨v, hv, rfl⟩ | ⟨v, hv, rfl⟩) <;> exact hv
    · intro hw
      match w, h w hw with
      | false :: v, _ => exact .inl ⟨v, hw, rfl⟩
      | true :: v, _ => exact .inr ⟨v, hw, rfl⟩

theorem inOrder_eq_nil (h : Sized n S) : inOrder n S = [] ↔ S = [] := by
  simp only [List.eq_nil_iff_forall_not_mem, mem_inOrder h]

theorem inOrder_sorted (n : Nat) (S : List Word) : (inOrder n S).Pairwise (· < ·) := by
  induction n generalizing S with
  | zero =>
    rw [inOrder]
    split
    case isTrue => exact List.pairwise_singleton ..
    case isFalse => exact .nil
  | succ n ih =>
    rw [inOrder, List.pairwise_append, List.pairwise_map, List.pairwise_map]
    have hcons (b : Bool) {v w : Word} (h : v < w) : b :: v < b :: w :=
      List.cons_lt_cons_iff.mpr (.inr ⟨rfl, h⟩)
    refine ⟨(ih _).imp (hcons false), (ih _).imp (hcons true), ?_⟩
    simp only [List.mem_map]
    rintro _ ⟨v, -, rfl⟩ _ ⟨w, -, rfl⟩
    exact List.cons_lt_cons_iff.mpr (.inl (by decide))

theorem inOrder_nodup (n : Nat) (S : List Word) : (inOrder n S).Nodup :=
  (inOrder_sorted n S).imp fun {v w} (h : v < w) (heq : v = w) =>
    absurd (heq ▸ h) (List.lex_irrefl (fun b => Bool.lt_irrefl b) w)

theorem below_ne_nil {b : Bool} {w : Word} (h : b :: w ∈ S) : below b S ≠ [] :=
  List.ne_nil_of_mem (mem_below.mpr h)

@[simp] theorem turn_true (pos : Nat) (S : List Word) (w : Word) :
    turn pos S (true :: w) = turn (pos + 1) (below true S) w := by
  rw [turn]
  split
  · rfl
  · next h => exact (not_not.mp h).symm

/-- A place of a turn is one of those counted. -/
theorem turn_eq_zero_or (pos : Nat) (S : List Word) (w : Word) :
    turn pos S w = 0 ∨ pos ≤ turn pos S w := by
  induction w generalizing pos S with
  | nil => exact .inl rfl
  | cons b w ih =>
    rw [turn]
    split
    · right
      have := ih (pos + 1) (below b S)
      omega
    · split
      · exact .inr le_rfl
      · exact .inl rfl

end Order

/-! ## The way down -/

/-- The fork to turn at: one found further down, else the one known. -/
def lastOf (left t : Nat) : Nat := if t = 0 then left else t

@[simp] theorem lastOf_zero (t : Nat) : lastOf 0 t = t := by
  rw [lastOf]
  split
  · next h => exact h.symm
  · rfl

theorem lastOf_turn_false (left pos : Nat) (S : List Word) (w : Word) (hpos : pos ≠ 0) :
    lastOf left (turn pos S (false :: w)) =
      lastOf (if below true S = [] then left else pos) (turn (pos + 1) (below false S) w) := by
  rw [turn]
  by_cases ht : turn (pos + 1) (below false S) w = 0
  · by_cases hS : below true S = []
    · simp [lastOf, ht, hS]
    · simp [lastOf, ht, hS, hpos]
  · simp [lastOf, ht]

section Down

variable {n pos last left : Nat} {S : List Word} {previous : Word}

theorem descend_right (h : below false S = []) (hS : below true S ≠ []) :
    descend last (n + 1) pos S previous left =
      (descend last n (pos + 1) (below true S) previous.tail left).map
        fun r => (true :: r.1, r.2) := by
  rw [descend, if_pos h, if_neg hS]

theorem descend_left (h : below false S ≠ []) (hS : below true S = []) :
    descend last (n + 1) pos S previous left =
      (descend last n (pos + 1) (below false S) previous.tail left).map
        fun r => (false :: r.1, r.2) := by
  rw [descend, if_neg h, if_pos hS]

theorem descend_fork {b : Bool} (h : below false S ≠ []) (hS : below true S ≠ [])
    (hb : choice last pos (previous.headD false) = b) :
    descend last (n + 1) pos S previous left =
      (descend last n (pos + 1) (below b S) previous.tail (if b then left else pos)).map
        fun r => (b :: r.1, r.2) := by
  rw [descend, if_neg h, if_neg hS, hb]

/-- Behind the last turn the way goes to the first word. -/
theorem descend_first {w : Word} {rest : List Word} (h : Sized n S) (hpos : last < pos)
    (hw : inOrder n S = w :: rest) :
    descend last n pos S previous left = some (w, lastOf left (turn pos S w)) := by
  induction n generalizing pos S w rest previous left with
  | zero =>
    rw [inOrder] at hw
    split at hw
    case isTrue =>
      cases hw
      rfl
    case isFalse => cases hw
  | succ n ih =>
    rw [inOrder] at hw
    cases hfalse : inOrder n (below false S) with
    | nil =>
      have hleft := (inOrder_eq_nil (h.below false)).mp hfalse
      rw [hfalse, List.map_nil, List.nil_append] at hw
      obtain ⟨v, vs, htrue, rfl, -⟩ := List.map_eq_cons_iff.mp hw
      have hright : below true S ≠ [] := fun hnil => by
        rw [(inOrder_eq_nil (h.below true)).mpr hnil] at htrue
        cases htrue
      rw [descend_right hleft hright, ih (h.below true) (by omega) htrue, turn_true]
      rfl
    | cons v vs =>
      have hleft : below false S ≠ [] := fun hnil => by
        rw [(inOrder_eq_nil (h.below false)).mpr hnil] at hfalse
        cases hfalse
      rw [hfalse, List.map_cons, List.cons_append] at hw
      obtain ⟨rfl, -⟩ := List.cons.inj hw
      rw [lastOf_turn_false left pos S v (by omega)]
      by_cases hright : below true S = []
      · rw [descend_left hleft hright, ih (h.below false) (by omega) hfalse, if_pos hright]
        rfl
      · have hb : choice last pos (previous.headD false) = false := by
          rw [choice, if_neg (by omega)]
          exact beq_false_of_ne (by omega)
        rw [descend_fork hleft hright hb, ih (h.below false) (by omega) hfalse, if_neg hright]
        rfl

/-- The last word in order turns nowhere. -/
theorem turn_last {w : Word} (h : Sized n S) (hw : (inOrder n S).getLast? = some w) :
    turn pos S w = 0 := by
  induction n generalizing pos S w with
  | zero =>
    have hmem := List.mem_of_getLast? hw
    rw [mem_inOrder h] at hmem
    rw [List.length_eq_zero_iff.mp (h w hmem)]
    rfl
  | succ n ih =>
    rw [inOrder, List.getLast?_append, List.getLast?_map, List.getLast?_map] at hw
    cases htrue : (inOrder n (below true S)).getLast? with
    | some v =>
      rw [htrue] at hw
      obtain rfl : true :: v = w := by simpa using hw
      rw [turn_true]
      exact ih (h.below true) htrue
    | none =>
      rw [htrue] at hw
      obtain ⟨v, hfalse, rfl⟩ : ∃ v, (inOrder n (below false S)).getLast? = some v ∧
          false :: v = w := by simpa using hw
      have hright := (inOrder_eq_nil (h.below true)).mp (List.getLast?_eq_none_iff.mp htrue)
      rw [turn, ih (h.below false) hfalse]
      simp [hright]

/-- No two words differ in their last bit only. -/
def NoTwins (S : List Word) : Prop := ∀ w, w ++ [false] ∈ S → w ++ [true] ∉ S

theorem NoTwins.below (h : NoTwins S) (b : Bool) : NoTwins (below b S) := by
  intro w hfalse htrue
  rw [mem_below] at hfalse htrue
  exact h (b :: w) hfalse htrue

theorem NoTwins.no_fork (h : NoTwins S) (hS : Sized 1 S) (hleft : Descent.below false S ≠ []) :
    Descent.below true S = [] := by
  have hone (b : Bool) (hb : Descent.below b S ≠ []) : [b] ∈ S := by
    obtain ⟨v, hv⟩ := List.exists_mem_of_ne_nil _ hb
    rw [List.length_eq_zero_iff.mp (hS.below b v hv), mem_below] at hv
    exact hv
  by_contra hright
  exact h [] (hone false hleft) (hone true hright)

theorem descend_none (h : below false S = []) (hS : below true S = []) :
    descend last (n + 1) pos S previous left = none := by
  rw [descend, if_pos h, if_pos hS]

/-- To turn at the last place of a word of zeros is not to turn at all, without twins. -/
theorem descend_zeros (h : Sized (n + 1) S) (htwins : NoTwins S) (hpos : pos ≠ 0)
    (hlast : last = pos + n) :
    descend last (n + 1) pos S (List.replicate (n + 1) false) left =
      descend 0 (n + 1) pos S [] left := by
  have hzero (p : Nat) (hp : p ≠ 0) (b : Bool) : choice 0 p b = false := by
    rw [choice, if_neg (Nat.not_lt_zero p)]
    exact beq_false_of_ne hp
  induction n generalizing pos S left with
  | zero =>
    by_cases hleft : Descent.below false S = [] <;> by_cases hright : Descent.below true S = []
    · rw [descend_none hleft hright, descend_none hleft hright]
    · rw [descend_right hleft hright, descend_right hleft hright]
      rfl
    · rw [descend_left hleft hright, descend_left hleft hright]
      rfl
    · exact absurd (htwins.no_fork h hleft) hright
  | succ n ih =>
    have hbelow (b : Bool) (left : Nat) := @ih _ left _ (h.below b) (htwins.below b)
      (Nat.succ_ne_zero pos) (by omega)
    by_cases hleft : Descent.below false S = [] <;> by_cases hright : Descent.below true S = []
    · rw [descend_none hleft hright, descend_none hleft hright]
    · rw [descend_right hleft hright, descend_right hleft hright]
      exact congrArg _ (hbelow true left)
    · rw [descend_left hleft hright, descend_left hleft hright]
      exact congrArg _ (hbelow false left)
    · have hb : choice last pos ((List.replicate (n + 1 + 1) false).headD false) = false :=
        if_pos (by omega)
      rw [descend_fork hleft hright hb, descend_fork hleft hright (hzero pos hpos _)]
      exact congrArg _ (hbelow false pos)

/-- From a word the next way down leads to another one. -/
def Leads (n pos : Nat) (S : List Word) (w v : Word) : Prop :=
  turn pos S w ≠ 0 ∧
    ∀ left, descend (turn pos S w) n pos S w left = some (v, lastOf left (turn pos S v))

theorem leads_left {v w : Word} (hpos : pos ≠ 0) (h : below false S ≠ [])
    (hvw : Leads n (pos + 1) (below false S) v w) :
    Leads (n + 1) pos S (false :: v) (false :: w) := by
  obtain ⟨hturn, hdescend⟩ := hvw
  have hsame : turn pos S (false :: v) = turn (pos + 1) (below false S) v := by
    rw [turn, if_pos hturn]
  rw [Leads, hsame]
  refine ⟨hturn, fun left => ?_⟩
  rw [lastOf_turn_false left pos S w hpos]
  by_cases hright : below true S = []
  · rw [descend_left h hright, List.tail_cons, hdescend, if_pos hright]
    rfl
  · have hb : choice (turn (pos + 1) (below false S) v) pos
        ((false :: v).headD false) = false := by
      have := turn_eq_zero_or (pos + 1) (below false S) v
      exact if_pos (by omega)
    rw [descend_fork h hright hb, List.tail_cons, hdescend, if_neg hright]
    rfl

theorem leads_right {v w : Word} (h : below true S ≠ [])
    (hvw : Leads n (pos + 1) (below true S) v w) :
    Leads (n + 1) pos S (true :: v) (true :: w) := by
  obtain ⟨hturn, hdescend⟩ := hvw
  rw [Leads, turn_true, turn_true]
  refine ⟨hturn, fun left => ?_⟩
  by_cases hleft : below false S = []
  · rw [descend_right hleft h, List.tail_cons, hdescend]
    rfl
  · have hb : choice (turn (pos + 1) (below true S) v) pos ((true :: v).headD false) = true := by
      have := turn_eq_zero_or (pos + 1) (below true S) v
      exact if_pos (by omega)
    rw [descend_fork hleft h hb, List.tail_cons, if_pos rfl, hdescend]
    rfl

/-- From the last word on the left the way leads to the first one on the right. -/
theorem leads_across {v w : Word} {rest : List Word} (hS : Sized (n + 1) S) (hpos : pos ≠ 0)
    (hv : (inOrder n (below false S)).getLast? = some v)
    (hw : inOrder n (below true S) = w :: rest) :
    Leads (n + 1) pos S (false :: v) (true :: w) := by
  have hleft : below false S ≠ [] := fun hnil => by
    rw [(inOrder_eq_nil (hS.below false)).mpr hnil] at hv
    cases hv
  have hright : below true S ≠ [] := fun hnil => by
    rw [(inOrder_eq_nil (hS.below true)).mpr hnil] at hw
    cases hw
  have hturn : turn pos S (false :: v) = pos := by
    rw [turn, turn_last (hS.below false) hv]
    simp [hright]
  rw [Leads, hturn, turn_true]
  refine ⟨hpos, fun left => ?_⟩
  have hb : choice pos pos ((false :: v).headD false) = true := by
    rw [choice, if_neg (Nat.lt_irrefl pos)]
    exact beq_self_eq_true pos
  rw [descend_fork hleft hright hb, if_pos rfl,
    descend_first (hS.below true) (Nat.lt_succ_self pos) hw]
  rfl

/-- The ways down lead from each word to the next one in order. -/
theorem inOrder_leads (h : Sized n S) (hpos : pos ≠ 0) :
    (inOrder n S).IsChain (Leads n pos S) := by
  induction n generalizing pos S with
  | zero =>
    rw [inOrder]
    split
    case isTrue => exact .singleton _
    case isFalse => exact .nil
  | succ n ih =>
    rw [inOrder, List.isChain_append]
    refine ⟨?_, ?_, ?_⟩
    · by_cases hleft : below false S = []
      · rw [(inOrder_eq_nil (h.below false)).mpr hleft]
        exact .nil
      · exact List.isChain_map_of_isChain (false :: ·) (fun _ _ => leads_left hpos hleft)
          (ih (h.below false) (Nat.succ_ne_zero pos))
    · by_cases hright : below true S = []
      · rw [(inOrder_eq_nil (h.below true)).mpr hright]
        exact .nil
      · exact List.isChain_map_of_isChain (true :: ·) (fun _ _ => leads_right hright)
          (ih (h.below true) (Nat.succ_ne_zero pos))
    · intro v' hv w' hw
      rw [List.getLast?_map, Option.mem_def, Option.map_eq_some_iff] at hv
      rw [List.head?_map, Option.mem_def, Option.map_eq_some_iff] at hw
      obtain ⟨v, hv, rfl⟩ := hv
      obtain ⟨w, hw, rfl⟩ := hw
      obtain ⟨rest, hrest⟩ := List.head?_eq_some_iff.mp hw
      exact leads_across h hpos hv hrest

end Down

/-! ## The words that begin alike -/

/-- The rests of the words that begin with `p`. -/
def beneath : Word → List Word → List Word
  | [], S => S
  | b :: p, S => beneath p (below b S)

section Beneath

variable {p : Word} {S : List Word} {n pos last left : Nat}

@[simp] theorem mem_beneath {w : Word} : w ∈ beneath p S ↔ p ++ w ∈ S := by
  induction p generalizing S with
  | nil => rfl
  | cons b p ih => rw [beneath, ih, mem_below, List.cons_append]

theorem Sized.beneath (h : Sized (p.length + n) S) : Sized n (beneath p S) := by
  intro w hw
  have := h _ (mem_beneath.mp hw)
  rw [List.length_append] at this
  omega

theorem NoTwins.beneath (h : NoTwins S) : NoTwins (beneath p S) := by
  intro w hfalse htrue
  rw [mem_beneath, ← List.append_assoc] at hfalse htrue
  exact h _ hfalse htrue

theorem below_ne_nil_of_beneath {b : Bool} (h : beneath (b :: p) S ≠ []) : below b S ≠ [] := by
  obtain ⟨w, hw⟩ := List.exists_mem_of_ne_nil _ h
  exact List.ne_nil_of_mem (mem_below.mpr (mem_beneath.mp hw))

/-- Words that begin alike stand together. -/
theorem inOrder_beneath (p : Word) (n : Nat) (S : List Word) : ∃ before after,
    inOrder (p.length + n) S = before ++ (inOrder n (beneath p S)).map (p ++ ·) ++ after ∧
      (∀ w ∈ before, ¬p <+: w) ∧ ∀ w ∈ after, ¬p <+: w := by
  induction p generalizing S with
  | nil => exact ⟨[], [], by simp [beneath], by simp, by simp⟩
  | cons b p ih =>
    obtain ⟨before, after, hlist, hbefore, hafter⟩ := ih (below b S)
    have hcons (ws : List Word) (h : ∀ w ∈ ws, ¬p <+: w) :
        ∀ w ∈ ws.map (b :: ·), ¬b :: p <+: w := by
      simp only [List.forall_mem_map, List.cons_prefix_cons, true_and]
      exact h
    have hother (ws : List Word) : ∀ w ∈ ws.map ((!b) :: ·), ¬b :: p <+: w := by
      simp [List.cons_prefix_cons]
    have hmap : ((inOrder n (beneath p (below b S))).map (p ++ ·)).map (b :: ·) =
        (inOrder n (beneath (b :: p) S)).map (b :: p ++ ·) := by
      rw [List.map_map]
      rfl
    rw [List.length_cons, Nat.succ_add, inOrder]
    cases b with
    | false =>
      refine ⟨before.map (false :: ·), after.map (false :: ·) ++
        (inOrder (p.length + n) (below true S)).map (true :: ·), ?_, hcons before hbefore, ?_⟩
      · rw [hlist, List.map_append, List.map_append, hmap]
        simp only [List.append_assoc]
      · rw [List.forall_mem_append]
        exact ⟨hcons after hafter, hother _⟩
    | true =>
      refine ⟨(inOrder (p.length + n) (below false S)).map (false :: ·) ++ before.map (true :: ·),
        after.map (true :: ·), ?_, ?_, hcons after hafter⟩
      · rw [hlist, List.map_append, List.map_append, hmap]
        simp only [List.append_assoc]
      · rw [List.forall_mem_append]
        exact ⟨hother _, hcons before hbefore⟩

/-- The way down along the beginning of the last way, up to where it leads on. -/
theorem descend_beneath {v previous : Word} (hpos : pos ≠ 0) (hne : beneath p S ≠ [])
    (hlast : pos + p.length ≤ last)
    (hdown : ∀ left, descend last n (pos + p.length) (beneath p S) previous left =
      some (v, lastOf left (turn (pos + p.length) (beneath p S) v))) :
    descend last (p.length + n) pos S (p ++ previous) left =
      some (p ++ v, lastOf left (turn pos S (p ++ v))) := by
  induction p generalizing pos S left with
  | nil =>
    rw [List.length_nil, Nat.zero_add]
    exact hdown left
  | cons b p ih =>
    have hbelow := below_ne_nil_of_beneath hne
    rw [List.length_cons] at hlast hdown ⊢
    rw [Nat.succ_add]
    have hrest (left : Nat) := @ih (below b S) (pos + 1) left
      (Nat.succ_ne_zero pos) hne (by omega)
      (by rw [Nat.add_assoc, Nat.add_comm 1]; exact hdown)
    have hb : choice last pos ((b :: (p ++ previous)).headD false) = b := if_pos (by omega)
    cases b with
    | true =>
      rw [List.cons_append, List.cons_append, turn_true]
      by_cases hleft : below false S = []
      · rw [descend_right hleft hbelow, List.tail_cons, hrest]
        rfl
      · rw [descend_fork hleft hbelow hb, if_pos rfl, List.tail_cons, hrest]
        rfl
    | false =>
      rw [List.cons_append, List.cons_append, lastOf_turn_false _ _ _ _ hpos]
      by_cases hright : below true S = []
      · rw [descend_left hbelow hright, List.tail_cons, hrest, if_pos hright]
        rfl
      · rw [descend_fork hbelow hright hb, List.tail_cons, hrest, if_neg hright]
        rfl

/-- To aim at words that begin with `p`: the way down leads to the first of them. -/
theorem descend_target {v : Word} {rest : List Word} (h : Sized (p.length + (n + 1)) S)
    (htwins : NoTwins S) (hpos : pos ≠ 0) (hlast : last = pos + p.length + n)
    (hv : inOrder (n + 1) (beneath p S) = v :: rest) :
    descend last (p.length + (n + 1)) pos S (p ++ List.replicate (n + 1) false) left =
      some (p ++ v, lastOf left (turn pos S (p ++ v))) := by
  have hne : beneath p S ≠ [] := fun hnil => by
    rw [(inOrder_eq_nil h.beneath).mpr hnil] at hv
    cases hv
  refine descend_beneath hpos hne (by omega) fun left => ?_
  rw [descend_zeros h.beneath htwins.beneath (by omega) hlast,
    descend_first h.beneath (by omega) hv]

end Beneath

end NodeMcu.Lib.Descent
