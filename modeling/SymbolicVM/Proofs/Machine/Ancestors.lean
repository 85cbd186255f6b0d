import SymbolicVM.Proofs.Machine.Chain

/-!
# Chains of environments in arenas of any shape

The parents of environments may be missing, shared, or run in a circle. The environment after `i`
parent links from a start (`State.ancestor?`) is what the chain from there has at position `i`, up
to the bound on its length (`State.getElem?_envChain`).

The bound cuts a chain short only where it runs in a circle, and then nothing is lost: of the first
environments, one more than the arena has, two are the same, so what comes behind them has been
passed before (`State.exists_ancestor?_lt_size`). So a chain has all environments that can be
reached (`State.mem_envChain_iff`), and a search through it finds the nearest binding of a name
that there is (`State.chainLookup?_envChain_eq_some_iff`).
-/

namespace SymbolicVM.State

open Relation

variable {s : State} {start : Option String} {first id name : String} {i j : Nat}
  {e : String × Environment}

/-! ### The environments on the way -/

/-- An environment of the arena with its name. -/
def entry? (s : State) (id : String) : Option (String × Environment) :=
  (s.closures.get? id).map fun env => (id, env)

/-- The environment that `i` parent links lead to from `start`. -/
def ancestor? (s : State) (start : Option String) : Nat → Option (String × Environment)
  | 0 => start.bind s.entry?
  | i + 1 => (s.ancestor? start i).bind fun e => e.2.parent.bind s.entry?

/-- Parent links lead from `start` to the name. -/
def Reaches (s : State) (start : Option String) (id : String) : Prop :=
  ∃ first, start = some first ∧ ReflTransGen s.Parent first id

theorem entry?_eq_some_iff : s.entry? id = some e ↔ e.1 = id ∧ s.closures.get? e.1 = some e.2 := by
  unfold entry?
  rw [Option.map_eq_some_iff]
  constructor
  · rintro ⟨env, hget, rfl⟩
    exact ⟨rfl, hget⟩
  · rintro ⟨rfl, hget⟩
    exact ⟨e.2, hget, rfl⟩

theorem ancestor?_none (i : Nat) : s.ancestor? none i = none := by
  induction i with
  | zero => rfl
  | succ i ih => rw [ancestor?, ih, Option.bind_none]

/-- The first link may as well be followed before the others. -/
theorem ancestor?_succ (start : Option String) (i : Nat) :
    s.ancestor? start (i + 1) =
      (s.ancestor? start 0).bind fun e => s.ancestor? e.2.parent i := by
  induction i with
  | zero => rfl
  | succ i ih =>
    have hlast : s.ancestor? start (i + 1 + 1) =
        (s.ancestor? start (i + 1)).bind fun e => e.2.parent.bind s.entry? := rfl
    rw [hlast, ih, Option.bind_assoc]
    rfl

/-- What comes after an environment depends on nothing else. -/
theorem ancestor?_add_of_eq (h : s.ancestor? start i = s.ancestor? start j) (k : Nat) :
    s.ancestor? start (i + k) = s.ancestor? start (j + k) := by
  induction k with
  | zero => exact h
  | succ k ih => rw [← Nat.add_assoc, ← Nat.add_assoc, ancestor?, ancestor?, ih]

/-- Before an environment on the way there are others. -/
theorem exists_ancestor?_of_le (h : s.ancestor? start j = some e) (hij : i ≤ j) :
    ∃ d, s.ancestor? start i = some d := by
  induction j generalizing e with
  | zero =>
    obtain rfl := Nat.le_zero.mp hij
    exact ⟨e, h⟩
  | succ j ih =>
    rcases Nat.le_succ_iff.mp hij with hle | rfl
    · obtain ⟨d, hd, -⟩ := Option.bind_eq_some_iff.mp h
      exact ih hd hle
    · exact ⟨e, h⟩

/-- Every environment on the way is in the arena under its name. -/
theorem get?_of_ancestor? (h : s.ancestor? start i = some e) : s.closures.get? e.1 = some e.2 := by
  cases i with
  | zero =>
    obtain ⟨first, -, hentry⟩ := Option.bind_eq_some_iff.mp h
    exact (entry?_eq_some_iff.mp hentry).2
  | succ i =>
    obtain ⟨d, -, hlink⟩ := Option.bind_eq_some_iff.mp h
    obtain ⟨up, -, hentry⟩ := Option.bind_eq_some_iff.mp hlink
    exact (entry?_eq_some_iff.mp hentry).2

/-! ### Positions in a chain -/

/-- **A chain has the environments on the way in their order**, as many as there is fuel for. -/
theorem getElem?_envChainFrom (fuel : Nat) (start : Option String) (i : Nat) :
    (envChainFrom s.closures fuel start)[i]? = if i < fuel then s.ancestor? start i else none := by
  induction fuel generalizing start i with
  | zero => simp [envChainFrom]
  | succ fuel ih =>
    cases start with
    | none => simp [envChainFrom, ancestor?_none]
    | some id =>
      cases hget : s.closures.get? id with
      | none =>
        have hstart : s.ancestor? (some id) 0 = none := by simp [ancestor?, entry?, hget]
        have hnone : s.ancestor? (some id) i = none := by
          cases i with
          | zero => exact hstart
          | succ i => rw [ancestor?_succ, hstart, Option.bind_none]
        simp [envChainFrom, hget, hnone]
      | some env =>
        have hstart : s.ancestor? (some id) 0 = some (id, env) := by simp [ancestor?, entry?, hget]
        rw [envChainFrom_of_get? hget]
        cases i with
        | zero => simp [hstart]
        | succ i =>
          rw [List.getElem?_cons_succ, ih, ancestor?_succ, hstart, Option.bind_some]
          simp

/-- A chain is cut after one environment more than there are. -/
theorem getElem?_envChain (s : State) (start : Option String) (i : Nat) :
    (s.envChain start)[i]? = if i ≤ s.closures.size then s.ancestor? start i else none := by
  unfold envChain
  rw [getElem?_envChainFrom]
  simp only [Nat.lt_succ_iff]

theorem length_envChain_le (s : State) (start : Option String) :
    (s.envChain start).length ≤ s.closures.size + 1 := by
  apply Nat.le_of_not_lt
  intro hlong
  have hcut := s.getElem?_envChain start (s.closures.size + 1)
  rw [if_neg (by omega), List.getElem?_eq_none_iff] at hcut
  omega

/-! ### Circles -/

/-- The name tells which environment on the way it is. -/
theorem ancestor?_eq_of_name {d : String × Environment} (hi : s.ancestor? start i = some d)
    (hj : s.ancestor? start j = some e) (hname : d.1 = e.1) :
    s.ancestor? start i = s.ancestor? start j := by
  have hget : some d.2 = some e.2 :=
    (get?_of_ancestor? hi).symm.trans (hname ▸ get?_of_ancestor? hj)
  rw [hi, hj, Prod.ext hname (Option.some.inj hget)]

/-- **A way with more environments than the arena passes one of them twice.** -/
theorem exists_ancestor?_eq (h : s.ancestor? start s.closures.size = some e) :
    ∃ i j, i < j ∧ j ≤ s.closures.size ∧ s.ancestor? start i = s.ancestor? start j := by
  have hlast : (s.envChain start)[s.closures.size]? = some e := by
    rw [getElem?_envChain, if_pos (Nat.le_refl _), h]
  obtain ⟨hlength, -⟩ := List.getElem?_eq_some_iff.mp hlast
  -- the names of the chain are names of the arena, and they are too many to be distinct
  have hrepeats : ¬ ((s.envChain start).map Prod.fst).Nodup := by
    intro hnodup
    have hle := hnodup.length_le_of_subset (map_fst_envChainFrom_subset _ start)
    rw [List.length_map, Dict.length_keys] at hle
    omega
  rw [List.nodup_iff_getElem?_ne_getElem?] at hrepeats
  push Not at hrepeats
  obtain ⟨i, j, hij, hj, hsame⟩ := hrepeats
  have hbound := s.length_envChain_le start
  rw [List.length_map] at hj
  obtain ⟨d, hd⟩ := exists_ancestor?_of_le h (show i ≤ s.closures.size by omega)
  obtain ⟨d', hd'⟩ := exists_ancestor?_of_le h (show j ≤ s.closures.size by omega)
  have hname : d.1 = d'.1 := by
    rw [List.getElem?_map, List.getElem?_map, getElem?_envChain, getElem?_envChain,
      if_pos (by omega), if_pos (by omega), hd, hd'] at hsame
    exact Option.some.inj hsame
  exact ⟨i, j, hij, by omega, ancestor?_eq_of_name hd hd' hname⟩

/-- **Every environment on the way is passed before the bound is reached**: a way that is longer
leads through a circle, and leaving out one round of it leads to the same place. -/
theorem exists_ancestor?_lt_size (h : s.ancestor? start j = some e) :
    ∃ i ≤ j, i < s.closures.size ∧ s.ancestor? start i = some e := by
  induction j using Nat.strongRecOn with
  | ind j ih =>
    by_cases hj : j < s.closures.size
    · exact ⟨j, Nat.le_refl j, hj, h⟩
    · obtain ⟨d, hd⟩ := exists_ancestor?_of_le h (Nat.le_of_not_lt hj)
      obtain ⟨a, b, hab, hb, hround⟩ := exists_ancestor?_eq hd
      have hshort : s.ancestor? start (a + (j - b)) = some e := by
        rw [ancestor?_add_of_eq hround, Nat.add_sub_cancel' (by omega), h]
      obtain ⟨i, hi, hsize, hsame⟩ := ih (a + (j - b)) (by omega) hshort
      exact ⟨i, by omega, hsize, hsame⟩

/-! ### All that can be reached -/

/-- The environments on the way are those that can be reached. -/
theorem exists_ancestor?_iff :
    (∃ i, s.ancestor? start i = some e) ↔
      s.Reaches start e.1 ∧ s.closures.get? e.1 = some e.2 := by
  constructor
  · rintro ⟨i, h⟩
    refine ⟨?_, get?_of_ancestor? h⟩
    induction i generalizing e with
    | zero =>
      obtain ⟨first, rfl, hentry⟩ := Option.bind_eq_some_iff.mp h
      obtain ⟨rfl, -⟩ := entry?_eq_some_iff.mp hentry
      exact ⟨e.1, rfl, .refl⟩
    | succ i ih =>
      obtain ⟨d, hd, hlink⟩ := Option.bind_eq_some_iff.mp h
      obtain ⟨up, hup, hentry⟩ := Option.bind_eq_some_iff.mp hlink
      obtain ⟨rfl, -⟩ := entry?_eq_some_iff.mp hentry
      obtain ⟨first, hfirst, hreaches⟩ := ih hd
      exact ⟨first, hfirst, hreaches.tail (parent_iff.mpr ⟨d.2, get?_of_ancestor? hd, hup⟩)⟩
  · rintro ⟨⟨first, rfl, hreaches⟩, hget⟩
    obtain ⟨id, env⟩ := e
    dsimp only at hreaches hget
    induction hreaches generalizing env with
    | refl => exact ⟨0, entry?_eq_some_iff.mpr ⟨rfl, hget⟩⟩
    | tail _ hparent ih =>
      obtain ⟨below, hbelow, hup⟩ := parent_iff.mp hparent
      obtain ⟨i, hi⟩ := ih below hbelow
      refine ⟨i + 1, ?_⟩
      rw [ancestor?, hi, Option.bind_some, hup]
      exact entry?_eq_some_iff.mpr ⟨rfl, hget⟩

/-- **A chain has exactly the environments that can be reached**, also in an arena with circles. -/
theorem mem_envChain_iff :
    e ∈ s.envChain start ↔ s.Reaches start e.1 ∧ s.closures.get? e.1 = some e.2 := by
  rw [← exists_ancestor?_iff, List.mem_iff_getElem?]
  simp only [getElem?_envChain]
  constructor
  · rintro ⟨i, hi⟩
    split_ifs at hi
    exact ⟨i, hi⟩
  · rintro ⟨j, hj⟩
    obtain ⟨i, -, hsize, hi⟩ := exists_ancestor?_lt_size hj
    exact ⟨i, by rw [if_pos (Nat.le_of_lt hsize), hi]⟩

/-! ### Searching a chain -/

/-- The environment is the nearest one on the way from `start` that binds the name, and it binds it
to the value. -/
def BindsNearest (s : State) (start : Option String) (name : String) (v : Value)
    (e : String × Environment) : Prop :=
  e.2.bindings.get? name = some v ∧
    ∃ i, s.ancestor? start i = some e ∧
      ∀ j < i, ∀ d, s.ancestor? start j = some d → d.2.bindings.get? name = none

/-- **A search through a chain finds the nearest binding**, however far away it is. -/
theorem chainLookup?_envChain_eq_some_iff {v : Value} :
    chainLookup? (s.envChain start) name = some v ↔ ∃ e, s.BindsNearest start name v e := by
  unfold chainLookup?
  constructor
  · intro h
    obtain ⟨before, e, after, hchain, hbinds, hnone⟩ := List.findSome?_eq_some_iff.mp h
    have hposition : (s.envChain start)[before.length]? = some e := by simp [hchain]
    rw [getElem?_envChain] at hposition
    split_ifs at hposition with hle
    refine ⟨e, hbinds, before.length, hposition, fun j hj d hd => hnone d ?_⟩
    have hearlier : (s.envChain start)[j]? = some d := by
      rw [getElem?_envChain, if_pos (by omega), hd]
    rw [hchain, List.getElem?_append_left hj] at hearlier
    exact List.mem_of_getElem? hearlier
  · rintro ⟨e, hbinds, j, hj, hnone⟩
    -- the nearest occurrence of the environment lies before the bound
    obtain ⟨i, hij, hsize, hi⟩ := exists_ancestor?_lt_size hj
    have hposition : (s.envChain start)[i]? = some e := by
      rw [getElem?_envChain, if_pos (Nat.le_of_lt hsize), hi]
    obtain ⟨hlength, hitem⟩ := List.getElem?_eq_some_iff.mp hposition
    refine List.findSome?_eq_some_iff.mpr
      ⟨(s.envChain start).take i, e, (s.envChain start).drop (i + 1), ?_, hbinds, fun d hd => ?_⟩
    · rw [← hitem, ← List.drop_eq_getElem_cons, List.take_append_drop]
    · obtain ⟨k, hk⟩ := List.getElem?_of_mem hd
      rw [List.getElem?_take] at hk
      split_ifs at hk with hki
      rw [getElem?_envChain, if_pos (by omega)] at hk
      exact hnone k (by omega) d hk

/-- A search fails only if no environment that can be reached binds the name. -/
theorem chainLookup?_envChain_isSome_iff :
    (chainLookup? (s.envChain start) name).isSome = true ↔
      ∃ id env, s.Reaches start id ∧ s.closures.get? id = some env ∧
        name ∈ env.bindings.keys := by
  unfold chainLookup?
  rw [List.findSome?_isSome_iff]
  constructor
  · rintro ⟨e, he, hbinds⟩
    obtain ⟨hreaches, hget⟩ := mem_envChain_iff.mp he
    obtain ⟨v, hv⟩ := Option.isSome_iff_exists.mp hbinds
    exact ⟨e.1, e.2, hreaches, hget, Dict.mem_keys_of_get? hv⟩
  · rintro ⟨id, env, hreaches, hget, hname⟩
    refine ⟨(id, env), mem_envChain_iff.mpr ⟨hreaches, hget⟩, ?_⟩
    rw [Option.isSome_iff_ne_none, Ne, Dict.get?_eq_none_iff, not_not]
    exact hname

/-- **Chains are complete in every arena.** A chain has at most one environment more than the
arena; its environments are those on the way from the start, in their order; all that can be reached
are among them, and none else; and a search through the chain finds a name exactly if one of them
binds it, and then its nearest binding. -/
theorem envChain_complete (s : State) (start : Option String) :
    (s.envChain start).length ≤ s.closures.size + 1 ∧
      (∀ i, (s.envChain start)[i]? = if i ≤ s.closures.size then s.ancestor? start i else none) ∧
      (∀ id env, (id, env) ∈ s.envChain start ↔
        s.Reaches start id ∧ s.closures.get? id = some env) ∧
      ∀ name, ((chainLookup? (s.envChain start) name).isSome = true ↔
          ∃ id env, s.Reaches start id ∧ s.closures.get? id = some env ∧
            name ∈ env.bindings.keys) ∧
        ∀ v, chainLookup? (s.envChain start) name = some v ↔
          ∃ e, s.BindsNearest start name v e :=
  ⟨s.length_envChain_le start, s.getElem?_envChain start, fun _ _ => mem_envChain_iff,
    fun _ => ⟨chainLookup?_envChain_isSome_iff, fun _ => chainLookup?_envChain_eq_some_iff⟩⟩

/-- A way that leads into a circle is followed until there is one environment more than the arena
has. -/
example :
    (envChain
      { closures := .ofList [("env_0", { parent := some "env_1" }),
          ("env_1", { parent := some "env_2" }), ("env_2", { parent := some "env_1" })] }
      (some "env_0")).map (·.1) = ["env_0", "env_1", "env_2", "env_1"] := by
  decide

end SymbolicVM.State
