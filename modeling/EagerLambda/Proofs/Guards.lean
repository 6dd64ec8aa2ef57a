import EagerLambda.Proofs.Runs
import Mathlib.Data.List.Perm.Basic

/-!
# Guards — what contexts count

Contexts are made, copied, entered and left in any order, and their flags are raised and lowered in
between.  Entering a context yields a guard, and dropping the guard, sooner or later than others,
leaves the context again.  `Pool` is the state machine of all this: any number of contexts, the
guards that are live, and the store with the flags.

A copy begins with the depth and the limit of the original and counts on its own from then on, but
it shares the flag with the original and with all other copies: they are one family.  What a history
of actions has left behind can be told from the history alone (`contexts_count_guards`).  The depth
of a context is the one it began with and one more for each of its live guards, and its flag is as
the latest action on a member of its family has left it.
-/

namespace EagerLambda

variable {κ σ : Type}

/-! ### The machine -/

/-- A context, together with what it was when it was made and with the number of its family, which
is the number of the context from which all others in the family were copied. -/
structure Member where
  context : Context
  origin : Context
  family : Nat

/-- All contexts, in the order in which they were made, the numbers of the contexts that the live
guards are for, the latest guard first, and the store. -/
structure Pool (σ : Type) where
  members : List Member
  guards : List Nat
  store : Store σ

namespace Pool

/-- What can be done with contexts.  A context goes by its number, and a guard by its place among
the live ones. -/
inductive Action where
  /-- Make a context with the default limit. -/
  | make
  /-- Make a context with a limit of its own. -/
  | makeWith (limit : UInt64)
  | clone (i : Nat)
  /-- Enter a context, and keep the guard. -/
  | enter (i : Nat)
  | drop (k : Nat)
  | interrupt (i : Nat)
  | reset (i : Nat)
  | isInterrupted (i : Nat)
  | depth (i : Nat)

/-- What comes of an action. -/
inductive Reply (κ : Type) where
  | done
  | refused (error : EvalError κ)
  | interrupted (raised : Bool)
  | depth (d : Nat)
  /-- There is no such context or guard. -/
  | missing

/-- The pool with a new context, which has a family of its own. -/
def add (pool : Pool σ) (x : Alloc σ Context) : Pool σ :=
  let (context, store) := x pool.store
  { pool with members := pool.members ++ [⟨context, context, pool.members.length⟩], store }

/-- Do something with a context, if it is there. -/
def on (pool : Pool σ) (i : Nat) (f : Member → Reply κ × Pool σ) : Reply κ × Pool σ :=
  match pool.members[i]? with
  | some m => f m
  | none => (.missing, pool)

/-- The pool with the member `m`, whose number is `i`, now in the given context. -/
def put (pool : Pool σ) (i : Nat) (m : Member) (context : Context) : Pool σ :=
  { pool with members := pool.members.set i { m with context } }

/-- One action. -/
def step (pool : Pool σ) : Action → Reply κ × Pool σ
  | .make => (.done, pool.add Context.default)
  | .makeWith limit => (.done, pool.add (Context.make limit.toNat))
  | .clone i => pool.on i fun m =>
    (.done, { pool with members := pool.members ++ [⟨m.context, m.context, m.family⟩] })
  | .enter i => pool.on i fun m =>
    match Run.enter (.start m.context pool.store) with
    | (.ok _, s) =>
      (.done, { pool.put i m s.context with guards := i :: pool.guards, store := s.store })
    | (.error e, s) => (.refused e, { pool.put i m s.context with store := s.store })
  | .drop k =>
    match pool.guards[k]? with
    | some i => pool.on i fun m =>
      (.done, { pool.put i m m.context.leave with guards := pool.guards.eraseIdx k })
    | none => (.missing, pool)
  | .interrupt i => pool.on i fun m =>
    (.done, { pool with store := (m.context.interrupt pool.store).2 })
  | .reset i => pool.on i fun m =>
    (.done, { pool with store := (m.context.resetInterrupt pool.store).2 })
  | .isInterrupted i => pool.on i fun m =>
    (.interrupted (m.context.isInterrupted pool.store), pool)
  | .depth i => pool.on i fun m => (.depth m.context.depth, pool)

/-- The pool after a history of actions, the latest first. -/
def after (κ : Type) (store : Store σ) : List Action → Pool σ
  | [] => ⟨[], [], store⟩
  | action :: earlier => ((after κ store earlier).step (κ := κ) action).2

/-! ### What the history says of the flags -/

/-- The family of the context with the number `i`, if there is such a context. -/
def family? (pool : Pool σ) (i : Nat) : Option Nat := (pool.members[i]?).map Member.family

/-- The number of the context whose flag the action raises or lowers, and which of the two. -/
def Action.sets? : Action → Option (Nat × Bool)
  | .interrupt i => some (i, true)
  | .reset i => some (i, false)
  | _ => none

/-- What was done last to the flag of each family, with one action more. -/
def noting (pool : Pool σ) (action : Action) (last : Nat → Option Bool) : Nat → Option Bool :=
  fun family =>
    match action.sets? with
    | some (i, up) => if pool.family? i = some family then some up else last family
    | none => last family

/-- What the latest action that raised or lowered the flag of a member of the family did to it, if
there was one. -/
def lastSet (κ : Type) (store : Store σ) : List Action → Nat → Option Bool
  | [] => fun _ => none
  | action :: earlier => (after κ store earlier).noting action (lastSet κ store earlier)

/-! ### What one action keeps -/

/-- What a pool is like, if `last` is what was done last to the flag of each family. -/
structure Kept (pool : Pool σ) (last : Nat → Option Bool) : Prop where
  /-- Nothing about a context has changed but the depth, and that counts the guards. -/
  count : ∀ {i : Nat} {m : Member}, pool.members[i]? = some m →
    m.context = { m.origin with depth := m.origin.depth + pool.guards.count i }
  bounded : ∀ {m : Member}, m ∈ pool.members →
    m.context.depth ≤ m.context.limit ∧ m.context.limit < UInt64.size
  live : ∀ {i : Nat}, i ∈ pool.guards → i < pool.members.length
  flag : ∀ {m : Member}, m ∈ pool.members →
    m.context.isInterrupted pool.store = (last m.family).getD false
  taken : ∀ {m : Member}, m ∈ pool.members →
    m.context.flag < pool.store.next ∧ m.family < pool.members.length
  /-- Contexts share a flag if they are of one family, and only then. -/
  kin : ∀ {m n : Member}, m ∈ pool.members → n ∈ pool.members →
    (m.context.flag = n.context.flag ↔ m.family = n.family)
  unset : ∀ {f : Nat}, pool.members.length ≤ f → last f = none

namespace Kept

variable {pool : Pool σ} {last : Nat → Option Bool} {i : Nat} {m : Member}

/-- One context more, which has no guards yet. -/
theorem append (h : pool.Kept last) {c : Context} {family : Nat} {store : Store σ}
    (hbounded : c.depth ≤ c.limit ∧ c.limit < UInt64.size)
    (hflag : c.isInterrupted store = (last family).getD false)
    (htaken : c.flag < store.next ∧ family < pool.members.length + 1)
    (hkin : ∀ n ∈ pool.members, (c.flag = n.context.flag ↔ family = n.family))
    (hold : ∀ n ∈ pool.members, n.context.isInterrupted store = n.context.isInterrupted pool.store)
    (hnext : pool.store.next ≤ store.next) :
    Kept ⟨pool.members ++ [⟨c, c, family⟩], pool.guards, store⟩ last where
  count {i m} hm := by
    rw [List.getElem?_append] at hm
    split at hm
    · exact h.count hm
    · next hi =>
        -- the new context has the first number that no guard can be for
        rw [List.getElem?_singleton] at hm
        split at hm
        · cases hm
          have hnone : pool.guards.count i = 0 :=
            List.count_eq_zero.mpr fun hmem => hi (h.live hmem)
          simp [hnone]
        · cases hm
  bounded hm := by
    rcases List.mem_append.mp hm with hm | hm
    · exact h.bounded hm
    · obtain rfl := List.mem_singleton.mp hm
      exact hbounded
  live hmem := by
    have hlt := h.live hmem
    rw [List.length_append]
    omega
  flag hm := by
    rcases List.mem_append.mp hm with hm | hm
    · exact (hold _ hm).trans (h.flag hm)
    · obtain rfl := List.mem_singleton.mp hm
      exact hflag
  taken hm := by
    rw [List.length_append]
    rcases List.mem_append.mp hm with hm | hm
    · obtain ⟨hlt, hfamily⟩ := h.taken hm
      exact ⟨Nat.lt_of_lt_of_le hlt hnext, Nat.lt_succ_of_lt hfamily⟩
    · obtain rfl := List.mem_singleton.mp hm
      exact htaken
  kin hm hn := by
    rcases List.mem_append.mp hm with hm | hm
    · rcases List.mem_append.mp hn with hn | hn
      · exact h.kin hm hn
      · obtain rfl := List.mem_singleton.mp hn
        exact eq_comm.trans ((hkin _ hm).trans eq_comm)
    · obtain rfl := List.mem_singleton.mp hm
      rcases List.mem_append.mp hn with hn | hn
      · exact hkin _ hn
      · obtain rfl := List.mem_singleton.mp hn
        exact ⟨fun _ => rfl, fun _ => rfl⟩
  unset hf := by
    rw [List.length_append] at hf
    exact h.unset (Nat.le_of_succ_le hf)

/-- **Making a context**: its flag is its own, and down. -/
theorem add (h : pool.Kept last) {limit : Nat} (hlimit : limit < UInt64.size) :
    (pool.add (Context.make limit)).Kept last := by
  refine h.append ⟨Nat.zero_le _, hlimit⟩ ?_ ⟨Nat.lt_succ_self _, Nat.lt_succ_self _⟩
    (fun n hn => ?_) (fun n hn => ?_) (Nat.le_succ _)
  · rw [h.unset (Nat.le_refl _)]
    exact if_pos rfl
  · obtain ⟨hflag, hfamily⟩ := h.taken hn
    exact ⟨fun heq => absurd heq (Nat.ne_of_gt hflag), fun heq => absurd heq (Nat.ne_of_gt hfamily)⟩
  · exact if_neg (Nat.ne_of_lt (h.taken hn).1)

/-- **Copying a context.** -/
theorem clone (h : pool.Kept last) (hm : m ∈ pool.members) :
    Kept { pool with members := pool.members ++ [⟨m.context, m.context, m.family⟩] } last :=
  h.append (h.bounded hm) (h.flag hm) ⟨(h.taken hm).1, Nat.lt_succ_of_lt (h.taken hm).2⟩
    (fun _ hn => h.kin hm hn) (fun _ _ => rfl) (Nat.le_refl _)

/-- **Entering and leaving a context**: another depth for it, and guards to match. -/
theorem put (h : pool.Kept last) (hm : pool.members[i]? = some m) {d : Nat} {guards : List Nat}
    (hd : d ≤ m.context.limit) (hcount : d = m.origin.depth + guards.count i)
    (hother : ∀ j, j ≠ i → guards.count j = pool.guards.count j)
    (hlive : guards ⊆ i :: pool.guards) :
    Kept { pool.put i m { m.context with depth := d } with guards } last := by
  have hmem : m ∈ pool.members := List.mem_of_getElem? hm
  -- but for depths, the members are what they were
  have hsame : ∀ n ∈ pool.members.set i { m with context := { m.context with depth := d } },
      ∃ n' ∈ pool.members, n.context.flag = n'.context.flag ∧ n.family = n'.family := by
    intro n hn
    rcases List.mem_or_eq_of_mem_set hn with hn | rfl
    · exact ⟨n, hn, rfl, rfl⟩
    · exact ⟨m, hmem, rfl, rfl⟩
  refine ⟨?_, ?_, ?_, ?_, ?_, ?_, ?_⟩
  · intro j n hn
    simp only [Pool.put, List.getElem?_set] at hn
    split at hn
    · next hij =>
        subst hij
        split at hn
        · cases hn
          rw [h.count hm, hcount]
        · cases hn
    · next hij =>
        rw [hother j (Ne.symm hij)]
        exact h.count hn
  · intro n hn
    rcases List.mem_or_eq_of_mem_set hn with hn | rfl
    · exact h.bounded hn
    · exact ⟨hd, (h.bounded hmem).2⟩
  · intro j hj
    simp only [Pool.put, List.length_set]
    rcases List.mem_cons.mp (hlive hj) with rfl | hj
    · exact (List.getElem?_eq_some_iff.mp hm).1
    · exact h.live hj
  · intro n hn
    obtain ⟨n', hn', hflag, hfamily⟩ := hsame n hn
    rw [Context.isInterrupted, hflag, hfamily]
    exact h.flag hn'
  · intro n hn
    obtain ⟨n', hn', hflag, hfamily⟩ := hsame n hn
    simp only [Pool.put, List.length_set, hflag, hfamily]
    exact h.taken hn'
  · intro n k hn hk
    obtain ⟨n', hn', hflag, hfamily⟩ := hsame n hn
    obtain ⟨k', hk', hflag', hfamily'⟩ := hsame k hk
    rw [hflag, hfamily, hflag', hfamily']
    exact h.kin hn' hk'
  · intro f hf
    simp only [Pool.put, List.length_set] at hf
    exact h.unset hf

/-- **Raising or lowering a flag**: that of the whole family, and no other. -/
theorem setFlag (h : pool.Kept last) (hm : m ∈ pool.members) (up : Bool) :
    Kept { pool with store := pool.store.setFlag m.context.flag up }
      fun f => if some m.family = some f then some up else last f where
  count := h.count
  bounded := h.bounded
  live := h.live
  flag {n} hn := by
    by_cases hkin : m.family = n.family
    · rw [if_pos (congrArg some hkin)]
      exact if_pos ((h.kin hm hn).mpr hkin).symm
    · rw [if_neg fun heq => hkin (Option.some.inj heq)]
      have hflag : n.context.flag ≠ m.context.flag := fun heq => hkin ((h.kin hm hn).mp heq.symm)
      exact (if_neg hflag).trans (h.flag hn)
  taken := h.taken
  kin := h.kin
  unset {f} hf := by
    have hne : m.family ≠ f := Nat.ne_of_lt (Nat.lt_of_lt_of_le (h.taken hm).2 hf)
    rw [if_neg fun heq => hne (Option.some.inj heq)]
    exact h.unset hf

end Kept

/-! ### What the actions do -/

section

variable {pool : Pool σ} {i : Nat} {m : Member}

theorem on_some (hm : pool.members[i]? = some m) (f : Member → Reply κ × Pool σ) :
    pool.on i f = f m := by
  rw [on, hm]

theorem on_none (hm : pool.members[i]? = none) (f : Member → Reply κ × Pool σ) :
    pool.on i f = (.missing, pool) := by
  rw [on, hm]

theorem step_enter (hm : pool.members[i]? = some m) (hroom : m.context.depth < m.context.limit) :
    pool.step (κ := κ) (.enter i) =
      (.done, { pool.put i m { m.context with depth := m.context.depth + 1 } with
        guards := i :: pool.guards }) := by
  rw [step, on_some hm, Run.enter_below (s := .start m.context pool.store) hroom]
  rfl

/-- A context that is full refuses to be entered, and nothing changes. -/
theorem step_enter_full (hm : pool.members[i]? = some m)
    (hfull : m.context.limit ≤ m.context.depth) :
    pool.step (κ := κ) (.enter i) =
      (.refused (.stackOverflow m.context.depth m.context.limit), pool) := by
  have hput : pool.put i m m.context = pool := by
    obtain ⟨hi, rfl⟩ := List.getElem?_eq_some_iff.mp hm
    exact congrArg (Pool.mk · pool.guards pool.store) (List.set_getElem_self hi)
  rw [step, on_some hm, Run.enter_full (s := .start m.context pool.store) hfull]
  exact congrArg (Prod.mk _) hput

theorem step_drop {k : Nat} (hk : pool.guards[k]? = some i) (hm : pool.members[i]? = some m) :
    pool.step (κ := κ) (.drop k) =
      (.done, { pool.put i m { m.context with depth := m.context.depth - 1 } with
        guards := pool.guards.eraseIdx k }) := by
  rw [step, hk]
  exact on_some hm _

/-- Without a guard for the context `i`, there is one fewer of that context and as many as before of
each other. -/
theorem count_eraseIdx {guards : List Nat} {k : Nat} (hk : guards[k]? = some i) (j : Nat) :
    guards.count j = (guards.eraseIdx k).count j + if j = i then 1 else 0 := by
  obtain ⟨hlt, rfl⟩ := List.getElem?_eq_some_iff.mp hk
  rw [← (List.getElem_cons_eraseIdx_perm hlt).count_eq, List.count_cons]
  simp only [beq_iff_eq, @eq_comm _ j]

/-- A live guard is for a context that is there and has been entered. -/
theorem Kept.guarded {last : Nat → Option Bool} (h : pool.Kept last) {k : Nat}
    (hk : pool.guards[k]? = some i) : ∃ m, pool.members[i]? = some m ∧ 0 < m.context.depth := by
  have hmem : i ∈ pool.guards := List.mem_of_getElem? hk
  refine ⟨_, List.getElem?_eq_getElem (h.live hmem), ?_⟩
  rw [h.count (List.getElem?_eq_getElem (h.live hmem))]
  exact Nat.add_pos_right _ (List.count_pos_iff.mpr hmem)

/-- **One action.** -/
theorem Kept.step {last : Nat → Option Bool} (h : pool.Kept last) (action : Action) :
    ((pool.step (κ := κ) action).2).Kept (pool.noting action last) := by
  have hset (i : Nat) (up : Bool) :
      Kept (pool.on i fun m =>
        ((.done : Reply κ), { pool with store := pool.store.setFlag m.context.flag up })).2
        fun f => if pool.family? i = some f then some up else last f := by
    cases hm : pool.members[i]? with
    | none =>
        -- the context is not there, so it has no family
        have hlast : (fun f => if pool.family? i = some f then some up else last f) = last :=
          funext fun f => if_neg (by simp [family?, hm])
        rw [on_none hm, hlast]
        exact h
    | some m =>
        rw [on_some hm, family?, hm]
        exact h.setFlag (List.mem_of_getElem? hm) up
  cases action with
  | make => exact h.add (by decide)
  | makeWith limit => exact h.add limit.toNat_lt
  | clone i =>
      rw [Pool.step]
      cases hm : pool.members[i]? with
      | none => rw [on_none hm]; exact h
      | some m => rw [on_some hm]; exact h.clone (List.mem_of_getElem? hm)
  | enter i =>
      cases hm : pool.members[i]? with
      | none => rw [Pool.step, on_none hm]; exact h
      | some m =>
          by_cases hroom : m.context.depth < m.context.limit
          · rw [step_enter hm hroom]
            refine h.put hm hroom ?_ (fun j hj => ?_) (List.Subset.refl _)
            · rw [h.count hm, List.count_cons_self]
              rfl
            · exact List.count_cons_of_ne (Ne.symm hj)
          · rw [step_enter_full hm (Nat.le_of_not_lt hroom)]
            exact h
  | drop k =>
      cases hk : pool.guards[k]? with
      | none => simp only [Pool.step, hk]; exact h
      | some i =>
          obtain ⟨m, hm, hpos⟩ := h.guarded hk
          have hbound := (h.bounded (List.mem_of_getElem? hm)).1
          rw [step_drop hk hm]
          refine h.put hm (by omega) ?_ (fun j hj => ?_) fun j hj =>
            List.mem_cons_of_mem _ (List.eraseIdx_subset hj)
          · have hcount := count_eraseIdx hk i
            have hdepth : m.context.depth = m.origin.depth + pool.guards.count i := by
              rw [h.count hm]
            rw [if_pos rfl] at hcount
            omega
          · have hcount := count_eraseIdx hk j
            rw [if_neg hj] at hcount
            exact hcount.symm
  | interrupt i => exact hset i true
  | reset i => exact hset i false
  | isInterrupted i | depth i =>
      rw [Pool.step]
      cases hm : pool.members[i]? with
      | none => rw [on_none hm]; exact h
      | some m => rw [on_some hm]; exact h

end

/-- **All actions**, one after the other. -/
theorem after_kept (κ : Type) (store : Store σ) (history : List Action) :
    (after κ store history).Kept (lastSet κ store history) := by
  induction history with
  | nil =>
      refine ⟨?_, ?_, ?_, ?_, ?_, ?_, ?_⟩
      all_goals simp [after, lastSet]
  | cons action earlier ih => exact ih.step action

/-! ### The law -/

/-- What is remembered of the making of a context. -/
def birth (m : Member) : Context × Nat := (m.origin, m.family)

/-- What can be told of a pool, if `last` is what was done last to the flag of each family. -/
structure Accounted (κ : Type) (pool : Pool σ) (last : Nat → Option Bool) : Prop where
  /-- A context is what it was when it was made, but for the depth: that is one more for each of its
  live guards. -/
  counted : ∀ {i : Nat} {m : Member}, pool.members[i]? = some m →
    m.context = { m.origin with depth := m.origin.depth + pool.guards.count i } ∧
    pool.step (κ := κ) (.depth i) = (.depth (m.origin.depth + pool.guards.count i), pool)
  /-- Below the limit a context can be entered.  The new depth is a word. -/
  entered : ∀ {i : Nat} {m : Member}, pool.members[i]? = some m →
    m.context.depth < m.context.limit →
    m.context.depth + 1 < UInt64.size ∧
    pool.step (κ := κ) (.enter i) =
      (.done, { pool.put i m { m.context with depth := m.context.depth + 1 } with
        guards := i :: pool.guards })
  /-- At the limit it cannot, and nothing changes. -/
  refused : ∀ {i : Nat} {m : Member}, pool.members[i]? = some m →
    ¬ m.context.depth < m.context.limit →
    pool.step (κ := κ) (.enter i) =
      (.refused (.stackOverflow m.context.depth m.context.limit), pool)
  /-- When a guard is dropped, the depth of its context is not zero. -/
  dropped : ∀ {k i : Nat}, pool.guards[k]? = some i →
    ∃ m, pool.members[i]? = some m ∧ 0 < m.context.depth ∧
      pool.step (κ := κ) (.drop k) =
        (.done, { pool.put i m { m.context with depth := m.context.depth - 1 } with
          guards := pool.guards.eraseIdx k })
  /-- A context is interrupted if a member of its family was, and none was reset since. -/
  interrupted : ∀ {i : Nat} {m : Member}, pool.members[i]? = some m →
    pool.step (κ := κ) (.isInterrupted i) = (.interrupted ((last m.family).getD false), pool)
  /-- A new context begins at the depth zero. -/
  made : ∀ limit : UInt64,
    (∃ c, c.depth = 0 ∧ c.limit = limit.toNat ∧
      (pool.step (κ := κ) (.makeWith limit)).2.members.map birth =
        pool.members.map birth ++ [(c, pool.members.length)]) ∧
    ∃ c, c.depth = 0 ∧ c.limit = Context.defaultLimit ∧
      (pool.step (κ := κ) .make).2.members.map birth =
        pool.members.map birth ++ [(c, pool.members.length)]
  /-- A copy begins as what the original is at the moment, in the same family. -/
  copied : ∀ {i : Nat} {m : Member}, pool.members[i]? = some m →
    (pool.step (κ := κ) (.clone i)).2.members.map birth =
      pool.members.map birth ++ [(m.context, m.family)]
  /-- What is remembered does not change. -/
  remembered : ∀ action,
    pool.members.map birth <+: (pool.step (κ := κ) action).2.members.map birth

theorem map_birth_put {pool : Pool σ} {i : Nat} {m : Member} (hm : pool.members[i]? = some m)
    (context : Context) : (pool.put i m context).members.map birth = pool.members.map birth := by
  obtain ⟨hi, rfl⟩ := List.getElem?_eq_some_iff.mp hm
  calc (pool.put i pool.members[i] context).members.map birth
    _ = (pool.members.map birth).set i (birth pool.members[i]) := List.map_set
    _ = (pool.members.set i pool.members[i]).map birth := List.map_set.symm
    _ = pool.members.map birth := by rw [List.set_getElem_self]

/-- No action changes what is remembered of the contexts that are there. -/
theorem map_birth_step (pool : Pool σ) (action : Action) :
    pool.members.map birth <+: (pool.step (κ := κ) action).2.members.map birth := by
  have hsame : ∀ {i : Nat} (f : Member → Reply κ × Pool σ),
      (∀ m, pool.members[i]? = some m →
        pool.members.map birth <+: (f m).2.members.map birth) →
      pool.members.map birth <+: (pool.on i f).2.members.map birth := by
    intro i f hf
    cases hm : pool.members[i]? with
    | none => rewrite [on_none hm]; exact List.prefix_refl _
    | some m => rw [on_some hm]; exact hf m hm
  have hput {i : Nat} {m : Member} (hm : pool.members[i]? = some m) (context : Context) :
      pool.members.map birth <+: (pool.put i m context).members.map birth := by
    rewrite [map_birth_put hm]; exact List.prefix_refl _
  cases action with
  | make | makeWith limit => exact (List.prefix_append _ _).map birth
  | clone i => exact hsame _ fun m _ => (List.prefix_append _ _).map birth
  | enter i =>
      refine hsame _ fun m hm => ?_
      split
      · exact hput hm _
      · exact hput hm _
  | drop k =>
      rw [step]
      split
      · exact hsame _ fun m hm => hput hm _
      · exact List.prefix_refl _
  | interrupt i | reset i | isInterrupted i | depth i =>
      exact hsame _ fun m _ => List.prefix_refl _

end Pool

/-- **Contexts count their guards and share flags with their copies.**  After every history of
actions on any number of contexts, the pool is accounted for: depths by the guards that are live,
refusals by the limits, flags by what was done last to a member of the family. -/
theorem contexts_count_guards (κ : Type) (store : Store σ) (history : List Pool.Action) :
    (Pool.after κ store history).Accounted κ (Pool.lastSet κ store history) := by
  have hkept := Pool.after_kept κ store history
  refine ⟨fun hm => ⟨hkept.count hm, ?_⟩, fun hm hroom => ⟨?_, Pool.step_enter hm hroom⟩,
    fun hm hfull => Pool.step_enter_full hm (Nat.le_of_not_lt hfull), fun hk => ?_, fun hm => ?_,
    fun limit => ⟨⟨_, rfl, rfl, List.map_append⟩, _, rfl, rfl, List.map_append⟩, fun hm => ?_,
    Pool.map_birth_step _⟩
  · rw [Pool.step, Pool.on_some hm, hkept.count hm]
  · have hword := (hkept.bounded (List.mem_of_getElem? hm)).2
    omega
  · obtain ⟨m, hm, hpos⟩ := hkept.guarded hk
    exact ⟨m, hm, hpos, Pool.step_drop hk hm⟩
  · rw [Pool.step, Pool.on_some hm, hkept.flag (List.mem_of_getElem? hm)]
  · rw [Pool.step, Pool.on_some hm]
    exact List.map_append

/-- A context with room for two calls is entered twice and then copied.  The copy is interrupted,
and the guard that was got first is dropped first. -/
def Pool.twoContexts : List Pool.Action :=
  [.drop 1, .interrupt 1, .clone 0, .enter 0, .enter 0, .makeWith 2]

/-- The copy has no guards, but is full, as the original was; the original is no longer.  Both are
interrupted. -/
theorem contexts_count_guards_copy :
    let pool := Pool.after Stock (.initial ()) Pool.twoContexts
    pool.guards = [0] ∧
      pool.step (κ := Stock) (.depth 0) = (.depth 1, pool) ∧
      pool.step (κ := Stock) (.isInterrupted 0) = (.interrupted true, pool) ∧
      pool.step (κ := Stock) (.enter 1) = (.refused (.stackOverflow 2 2), pool) := by
  intro pool
  have h := contexts_count_guards Stock (.initial ()) Pool.twoContexts
  exact ⟨rfl, (h.counted (i := 0) rfl).2, h.interrupted (i := 0) rfl,
    h.refused (i := 1) rfl (Nat.lt_irrefl 2)⟩

end EagerLambda
