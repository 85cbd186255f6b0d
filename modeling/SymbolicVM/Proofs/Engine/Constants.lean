import SymbolicVM.Proofs.Engine.Forms
import SymbolicVM.Proofs.Reference

/-!
# What a constant is decided as

A literal is kept as it is, but for a function reference in a frame that is not the outermost one:
it is closed over the environment of the frame (`Engine.LiteralKept`). The engine looks for the
reference anywhere in the text of the literal, and what it then writes is the reference alone. So a
text that is more than the reference in it is lost (`Engine.Swallows`), and only such a text is
(`Engine.const_kept_iff`).
-/

namespace SymbolicVM

/-! ### Texts with references -/

namespace Value

variable {v : Value} {f g : FunctionRef}

/-- The value is a text in which this function reference is the first one. -/
def Mentions (v : Value) (f : FunctionRef) : Prop :=
  ∃ text, v = .str text ∧ f.FirstIn text

/-- The value is the text of the function reference and nothing else, and the reference has no
environment. -/
structure Spells (v : Value) (f : FunctionRef) : Prop where
  words : f.IsWords
  plain : f.env = none
  text : v = .str f.render

theorem mentions_iff : v.Mentions f ↔ v.str?.bind FunctionRef.parse? = some f := by
  unfold Mentions
  simp only [Option.bind_eq_some_iff, str?_eq_some, FunctionRef.parse?_eq_some_iff]

theorem Mentions.unique (hf : v.Mentions f) (hg : v.Mentions g) : f = g :=
  Option.some.inj ((mentions_iff.mp hf).symm.trans (mentions_iff.mp hg))

theorem Spells.mentions (h : v.Spells f) : v.Mentions f :=
  ⟨f.render, h.text, FunctionRef.parse?_eq_some_iff.mp (FunctionRef.parse?_render h.words)⟩

end Value

/-! ### The environment of a frame -/

namespace State

variable {s : State} {env env' : String} {made made' : Option NewClosure}

/-- The environment that function literals of the current frame are closed over: the one that the
frame owns, or one that is made for it under the next number, with the frame's locals and under the
environment that the frame reads through. The outermost frame has none. -/
def ClosesOver (s : State) (env : String) (made : Option NewClosure) : Prop :=
  ∃ frame caller callers, s.frames = frame :: caller :: callers ∧
    ((frame.ownedEnv = some env ∧ made = none) ∨
      (frame.ownedEnv = none ∧ env = IdKind.environment.name s.counter ∧
        made = some { id := env, bindings := frame.locals, parent := frame.closureEnv }))

theorem ClosesOver.nested (h : s.ClosesOver env made) : 1 < s.depth := by
  obtain ⟨frame, caller, callers, hframes, -⟩ := h
  unfold depth
  rw [hframes]
  simp

theorem exists_closesOver (h : 1 < s.depth) : ∃ env made, s.ClosesOver env made := by
  unfold depth at h
  cases hframes : s.frames with
  | nil => simp [hframes] at h
  | cons frame callers =>
    cases callers with
    | nil => simp [hframes] at h
    | cons caller callers =>
      cases howned : frame.ownedEnv with
      | some env =>
        exact ⟨env, none, frame, caller, callers, hframes, .inl ⟨howned, rfl⟩⟩
      | none =>
        exact ⟨_, _, frame, caller, callers, hframes, .inr ⟨howned, rfl, rfl⟩⟩

theorem ClosesOver.unique (h : s.ClosesOver env made) (h' : s.ClosesOver env' made') :
    env = env' ∧ made = made' := by
  obtain ⟨frame, caller, callers, hframes, hover⟩ := h
  obtain ⟨frame', caller', callers', hframes', hover'⟩ := h'
  obtain rfl : frame = frame' := (List.cons.inj (hframes.symm.trans hframes')).1
  rcases hover with ⟨howned, rfl⟩ | ⟨howned, rfl, rfl⟩
  · rcases hover' with ⟨howned', rfl⟩ | ⟨howned', -, -⟩
    · exact ⟨Option.some.inj (howned.symm.trans howned'), rfl⟩
    · cases howned.symm.trans howned'
  · rcases hover' with ⟨howned', -⟩ | ⟨-, rfl, rfl⟩
    · cases howned.symm.trans howned'
    · exact ⟨rfl, rfl⟩

end State

namespace Engine

variable {registry : Registry} {inst : Instruction} {s : State} {v w : Value} {f f' : FunctionRef}
  {env env' : String} {made made' : Option NewClosure} {c : NewClosure}

theorem closureFor_of_closesOver (h : s.ClosesOver env made)
    (hroom : made ≠ none → s.counter + 1 < counterBound) :
    closureFor s = .ok (some (env, made)) := by
  obtain ⟨frame, caller, callers, hframes, hover⟩ := h
  unfold closureFor
  rw [hframes]
  dsimp only
  rcases hover with ⟨howned, rfl⟩ | ⟨howned, rfl, rfl⟩
  · rw [howned]
  · rw [howned]
    dsimp only
    rw [fresh_eq_ok.mpr ⟨rfl, hroom (by simp)⟩]
    rfl

/-- Only where an environment has to be made, a number may be missing for it. -/
theorem closureFor_overflow (h : s.ClosesOver env (some c))
    (hroom : counterBound ≤ s.counter + 1) : closureFor s = .error .overflow := by
  obtain ⟨frame, caller, callers, hframes, hover⟩ := h
  unfold closureFor
  rw [hframes]
  dsimp only
  rcases hover with ⟨-, hnone⟩ | ⟨howned, -, -⟩
  · cases hnone
  · have hfresh : fresh s .environment = .error .overflow := by
      unfold fresh State.fresh nextNumber
      rw [if_neg (by omega)]
      rfl
    rw [howned]
    dsimp only
    rw [hfresh]
    rfl

theorem closureFor_outermost (h : s.depth ≤ 1) : closureFor s = .ok none := by
  unfold State.depth at h
  unfold closureFor
  cases hframes : s.frames with
  | nil => rfl
  | cons frame callers =>
    cases callers with
    | nil => rfl
    | cons caller callers => simp [hframes] at h

/-! ### Closing over a literal -/

/-- The first function reference in a literal has no environment, and the frame has one for it. -/
structure Encloses (s : State) (v : Value) (f : FunctionRef) (env : String)
    (made : Option NewClosure) : Prop where
  mentions : v.Mentions f
  plain : f.env = none
  closes : s.ClosesOver env made

theorem Encloses.unique (h : Encloses s v f env made) (h' : Encloses s v f' env' made') :
    f = f' ∧ env = env' ∧ made = made' :=
  ⟨h.mentions.unique h'.mentions, h.closes.unique h'.closes⟩

theorem closeOver_of_encloses (h : Encloses s v f env made)
    (hroom : made ≠ none → s.counter + 1 < counterBound) :
    closeOver s v = .ok (.str (f.withEnv env).render, made) := by
  unfold closeOver
  rw [Value.mentions_iff.mp h.mentions]
  dsimp only
  rw [h.plain, closureFor_of_closesOver h.closes hroom]
  rfl

theorem closeOver_overflow (h : Encloses s v f env (some c))
    (hroom : counterBound ≤ s.counter + 1) : closeOver s v = .error .overflow := by
  unfold closeOver
  rw [Value.mentions_iff.mp h.mentions]
  dsimp only
  rw [h.plain, closureFor_overflow h.closes hroom]
  rfl

theorem closeOver_of_not_encloses (h : ∀ f env made, ¬ Encloses s v f env made) :
    closeOver s v = .ok (v, none) := by
  unfold closeOver
  cases hfound : v.str?.bind FunctionRef.parse? with
  | none => rfl
  | some f =>
    dsimp only
    split_ifs with htagged
    · rfl
    · -- the reference has no environment, so there is no frame to close it over
      have hplain : f.env = none := by simpa using htagged
      have houtermost : s.depth ≤ 1 := by
        by_contra hnested
        obtain ⟨env, made, hover⟩ := State.exists_closesOver (Nat.lt_of_not_le hnested)
        exact h f env made ⟨Value.mentions_iff.mpr hfound, hplain, hover⟩
      rw [closureFor_outermost houtermost]
      rfl

/-! ### Literals that are kept and literals that are lost -/

/-- The result `w` keeps the literal `v`: a text that is exactly a function reference without
environment is closed over the environment of a frame that is not the outermost, which is made along
with it if the frame has none yet; everything else stays as it is. -/
def LiteralKept (s : State) (v w : Value) (made : Option NewClosure) : Prop :=
  (∀ f env c, v.Spells f → s.ClosesOver env c → w = .str (f.withEnv env).render ∧ made = c) ∧
    (¬ (1 < s.depth ∧ ∃ f, v.Spells f) → w = v)

/-- The literal has a reference in it that is closed over, is more than this reference, and is not
by chance what the reference becomes. -/
def Swallows (s : State) (v : Value) : Prop :=
  ∃ f env made, Encloses s v f env made ∧ v ≠ .str f.render ∧ v ≠ .str (f.withEnv env).render

/-- What is written for a literal, and which environment is made for it. -/
structure Writes (s : State) (v w : Value) (made : Option NewClosure) : Prop where
  enclosed : ∀ f env c, Encloses s v f env c → w = .str (f.withEnv env).render ∧ made = c
  other : (∀ f env c, ¬ Encloses s v f env c) → w = v ∧ made = none

/-- A literal is kept exactly if it is not swallowed. -/
theorem Writes.literalKept_iff (h : Writes s v w made) :
    LiteralKept s v w made ↔ ¬ Swallows s v := by
  by_cases hencloses : ∃ f env c, Encloses s v f env c
  · obtain ⟨f, env, c, hencloses⟩ := hencloses
    obtain ⟨rfl, rfl⟩ := h.enclosed f env c hencloses
    by_cases hexact : v = .str f.render
    · -- the literal is the reference itself
      have hspells : v.Spells f := by
        obtain ⟨text, -, hfirst⟩ := hencloses.mentions
        exact ⟨hfirst.words, hencloses.plain, hexact⟩
      refine iff_of_true ⟨fun g env' c' hg hover => ?_, fun hnot => ?_⟩ ?_
      · obtain ⟨rfl, rfl, rfl⟩ := hencloses.unique ⟨hg.mentions, hg.plain, hover⟩
        exact ⟨rfl, rfl⟩
      · exact absurd ⟨hencloses.closes.nested, f, hspells⟩ hnot
      · rintro ⟨g, env', c', hencloses', hmore, -⟩
        obtain ⟨rfl, -⟩ := hencloses.unique hencloses'
        exact hmore hexact
    · -- it is more, so it has to be what is written
      have hspells (g : FunctionRef) : ¬ v.Spells g := by
        intro hg
        obtain rfl := hencloses.mentions.unique hg.mentions
        exact hexact hg.text
      constructor
      · rintro ⟨-, hkept⟩ ⟨g, env', c', hencloses', -, hchance⟩
        obtain ⟨rfl, rfl, rfl⟩ := hencloses.unique hencloses'
        refine hchance (hkept ?_).symm
        rintro ⟨-, g, hg⟩
        exact hspells g hg
      · intro hnot
        refine ⟨fun g env' c' hg _ => absurd hg (hspells g), fun _ => ?_⟩
        by_contra hne
        exact hnot ⟨f, env, _, hencloses, hexact, fun heq => hne heq.symm⟩
  · have hnone : ∀ f env c, ¬ Encloses s v f env c := by
      intro f env c hf
      exact hencloses ⟨f, env, c, hf⟩
    obtain ⟨rfl, rfl⟩ := h.other hnone
    refine iff_of_true ⟨fun f env c hf hover => ?_, fun _ => rfl⟩ ?_
    · exact absurd ⟨hf.mentions, hf.plain, hover⟩ (hnone f env c)
    · rintro ⟨f, env, c, hf, -⟩
      exact hnone f env c hf

theorem writes_of_closeOver (h : closeOver s v = .ok (w, made)) : Writes s v w made := by
  constructor
  · intro f env c hencloses
    -- the literal is closed over, as there is no overflow
    have hroom : c ≠ none → s.counter + 1 < counterBound := by
      intro hmade
      obtain ⟨c', rfl⟩ := Option.ne_none_iff_exists'.mp hmade
      by_contra hfull
      rw [closeOver_overflow hencloses (Nat.le_of_not_lt hfull)] at h
      cases h
    rw [closeOver_of_encloses hencloses hroom] at h
    obtain ⟨rfl, rfl⟩ := Prod.mk.inj (Except.ok.inj h)
    exact ⟨rfl, rfl⟩
  · intro hnone
    rw [closeOver_of_not_encloses hnone] at h
    obtain ⟨rfl, rfl⟩ := Prod.mk.inj (Except.ok.inj h)
    exact ⟨rfl, rfl⟩

theorem closeOver_eq_error_iff {why : Refusal} :
    closeOver s v = .error why ↔
      why = .overflow ∧ counterBound ≤ s.counter + 1 ∧
        ∃ f env c, Encloses s v f env (some c) := by
  by_cases hencloses : ∃ f env made, Encloses s v f env made
  · obtain ⟨f, env, made, hencloses⟩ := hencloses
    by_cases hroom : made ≠ none → s.counter + 1 < counterBound
    · rw [closeOver_of_encloses hencloses hroom]
      refine iff_of_false (by simp) ?_
      rintro ⟨-, hfull, g, env', c, hencloses'⟩
      obtain ⟨-, -, rfl⟩ := hencloses.unique hencloses'
      have hlt := hroom (by simp)
      omega
    · obtain ⟨hmade, hfull⟩ := Classical.not_imp.mp hroom
      obtain ⟨c, rfl⟩ := Option.ne_none_iff_exists'.mp hmade
      rw [closeOver_overflow hencloses (Nat.le_of_not_lt hfull)]
      constructor
      · intro h
        exact ⟨(Except.error.inj h).symm, Nat.le_of_not_lt hfull, f, env, c, hencloses⟩
      · rintro ⟨rfl, -⟩
        rfl
  · have hnone : ∀ f env made, ¬ Encloses s v f env made := by
      intro f env made hf
      exact hencloses ⟨f, env, made, hf⟩
    rw [closeOver_of_not_encloses hnone]
    refine iff_of_false (by simp) ?_
    rintro ⟨-, -, f, env, c, hf⟩
    exact hnone f env (some c) hf

theorem decide_of_isConst (hopcode : inst.opcode = .const) {t : String}
    (hliteral : inst.operand? 0 = some (.text t)) :
    decide registry inst s = closeOver s (Value.ofLiteral t) >>= fun e =>
      .ok ({ newClosure := e.2, reasoning := "constant " ++ e.1.render : Delta }.produce inst
        e.1) := by
  unfold decide decideConst
  rw [hopcode, hliteral]
  rfl

/-- **A constant is its literal unless it swallows it.** The decision fails only where an
environment has to be made and there is no number left for it. What it writes to the result register
is the literal, or the first function reference in it closed over; and the literal is kept exactly
if the reference is all of it. -/
theorem const_kept_iff (registry : Registry) (s : State) {reg t : String}
    (hopcode : inst.opcode = .const) (hresult : inst.result = some reg)
    (hliteral : inst.operand? 0 = some (.text t)) :
    (∀ why, decide registry inst s = .error why ↔
      why = .overflow ∧ counterBound ≤ s.counter + 1 ∧
        ∃ f env c, Encloses s (Value.ofLiteral t) f env (some c)) ∧
    ∀ d, decide registry inst s = .ok d → ∃ w,
      d.registerWrites = Dict.empty.insert reg w ∧
      Writes s (Value.ofLiteral t) w d.newClosure ∧
      (LiteralKept s (Value.ofLiteral t) w d.newClosure ↔ ¬ Swallows s (Value.ofLiteral t)) := by
  rw [decide_of_isConst hopcode hliteral]
  constructor
  · intro why
    rw [← closeOver_eq_error_iff, bind_eq_error]
    constructor
    · rintro (herror | ⟨e, -, herror⟩)
      · exact herror
      · cases herror
    · exact .inl
  · intro d h
    obtain ⟨⟨w, made⟩, hclose, h⟩ := bind_eq_ok.mp h
    obtain rfl := Except.ok.inj h
    have hwrites := writes_of_closeOver hclose
    rw [Delta.produce_eq rfl]
    refine ⟨w, ?_, hwrites, hwrites.literalKept_iff⟩
    unfold Instruction.resultWrites
    rw [hresult]
    rfl

/-! ### In a frame with a local -/

/-- A call that has bound one variable and owns no environment yet. -/
def innerFrameState : State where
  frames := [{ function := "outer", locals := .ofList [("n", .int 1)] },
    { function := mainFrameName }]

/-- A constant with the given literal. -/
def makeConst (literal : String) : Instruction where
  opcode := .const
  operands := [.text literal]
  result := some "%0"

/-- The reference that the literals below have in them. -/
def innerRef : FunctionRef where
  name := "inner"
  label := "func_inner_3"

/-- The environment that the call makes. -/
def innerClosure : NewClosure where
  id := "env_0"
  bindings := .ofList [("n", .int 1)]

/-- Every literal with this reference in it is closed over a new environment with the local. -/
theorem encloses_innerRef {t : String}
    (h : (Value.ofLiteral t).str?.bind FunctionRef.parse? = some innerRef) :
    Encloses innerFrameState (Value.ofLiteral t) innerRef "env_0" (some innerClosure) where
  mentions := Value.mentions_iff.mpr h
  plain := rfl
  closes := ⟨_, _, _, rfl, .inr ⟨rfl, rfl, rfl⟩⟩

/-- What is written for such a literal is the reference alone. -/
theorem decide_makeConst {t : String}
    (h : (Value.ofLiteral t).str?.bind FunctionRef.parse? = some innerRef) :
    ∃ d, decide {} (makeConst t) innerFrameState = .ok d ∧
      d.registerWrites = Dict.empty.insert "%0" (.str "<function:inner@func_inner_3#env_0>") ∧
      d.newClosure = some innerClosure := by
  rw [decide_of_isConst rfl rfl, closeOver_of_encloses (encloses_innerRef h) fun _ => by decide]
  exact ⟨_, rfl, rfl, rfl⟩

/-- A reference between quotes is closed over the environment. -/
theorem makeConst_quotedReference :
    ∃ d w, decide {} (makeConst "'<function:inner@func_inner_3>'") innerFrameState = .ok d ∧
      d.registerWrites = Dict.empty.insert "%0" w ∧ d.newClosure = some innerClosure ∧
      w = .str "<function:inner@func_inner_3#env_0>" ∧
      LiteralKept innerFrameState (Value.ofLiteral "'<function:inner@func_inner_3>'") w
        d.newClosure := by
  have hparse : (Value.ofLiteral "'<function:inner@func_inner_3>'").str?.bind
      FunctionRef.parse? = some innerRef := by
    decide +kernel
  have hexact : (Value.ofLiteral "'<function:inner@func_inner_3>'").str? =
      some innerRef.render := by
    decide +kernel
  obtain ⟨d, hd, -, hmade⟩ := decide_makeConst hparse
  obtain ⟨w, hwritten, hwrites, hkept⟩ := (const_kept_iff {} innerFrameState rfl rfl rfl).2 d hd
  obtain ⟨hw, -⟩ := hwrites.enclosed _ _ _ (encloses_innerRef hparse)
  refine ⟨d, w, hd, hwritten, hmade, hw, hkept.mpr ?_⟩
  rintro ⟨f, env, made, hencloses, hmore, -⟩
  obtain ⟨rfl, -⟩ := (encloses_innerRef hparse).unique hencloses
  exact hmore (Value.str?_eq_some.mp hexact)

/-- Of a sentence with the reference in it, the reference is all that is left. -/
theorem makeConst_sentence :
    ∃ d, decide {} (makeConst "'see <function:inner@func_inner_3>'") innerFrameState = .ok d ∧
      d.registerWrites = Dict.empty.insert "%0" (.str "<function:inner@func_inner_3#env_0>") ∧
      ¬ LiteralKept innerFrameState (Value.ofLiteral "'see <function:inner@func_inner_3>'")
        (.str "<function:inner@func_inner_3#env_0>") d.newClosure := by
  have hparse : (Value.ofLiteral "'see <function:inner@func_inner_3>'").str?.bind
      FunctionRef.parse? = some innerRef := by
    decide +kernel
  have hliteral : (Value.ofLiteral "'see <function:inner@func_inner_3>'").str? =
      some "see <function:inner@func_inner_3>" := by
    decide +kernel
  have htext := Value.str?_eq_some.mp hliteral
  have hmentions : (Value.ofLiteral "'see <function:inner@func_inner_3>'").Mentions innerRef :=
    Value.mentions_iff.mpr hparse
  obtain ⟨d, hd, hwritten, -⟩ := decide_makeConst hparse
  refine ⟨d, hd, hwritten, fun hkept => ?_⟩
  -- the sentence is not the text of a reference, so it would have to stay
  have hsame := hkept.2 fun hspelled => by
    obtain ⟨-, f, hf⟩ := hspelled
    obtain rfl := hmentions.unique hf.mentions
    exact absurd (Value.str.inj (htext.symm.trans hf.text)) (by decide)
  exact absurd (Value.str.inj (hsame.trans htext)) (by decide)

end Engine

end SymbolicVM
