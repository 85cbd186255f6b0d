import SymbolicVM.Json.Reader
import SymbolicVM.Json.Record
import SymbolicVM.Proofs.Json.Scalars

/-!
# Documents are read back from their compact form

The compact form of a document is cut into the tokens of the document (`Json.tokens?_compact`), and
these are put together to the document again (`Json.ofTokens?_tokens`). So a document is read back
as it was written (`Json.parse?_compact`) if its whole numbers have 64 bits, its floating-point
numbers are read back from their digits, and it is not nested too deeply (`Json.Writable`).

A number or a word ends only where the next character is none of it. So a text that ends in one is
not cut yet, but it is as soon as a bracket or a comma follows (`Json.Read.punctuation`).
-/

namespace SymbolicVM.Json

/-! ### The tokens of a document -/

mutual

/-- The tokens of a document. -/
def tokens : Json → List Token
  | .arr items => .openArr :: (itemTokens true items ++ [.closeArr])
  | .obj members => .openObj :: (memberTokens true members ++ [.closeObj])
  | j => [.scalar j]

/-- The tokens of the items of an array. -/
def itemTokens (first : Bool) : List Json → List Token
  | [] => []
  | j :: js => (if first then [] else [.comma]) ++ (tokens j ++ itemTokens false js)

/-- The tokens of the members of an object. -/
def memberTokens (first : Bool) : List (String × Json) → List Token
  | [] => []
  | (k, j) :: ms =>
    (if first then [] else [.comma]) ++
      (.scalar (.str k) :: .colon :: (tokens j ++ memberTokens false ms))

end

/-- A document that is read back from its compact form, nested in at most `depth` levels. -/
inductive Writable : Nat → Json → Prop where
  | null {depth} : Writable depth .null
  | bool {depth b} : Writable depth (.bool b)
  | int {depth} {i : Int} (lower : -0x8000000000000000 ≤ i) (upper : i < UInt64.size) :
    Writable depth (.int i)
  | float {depth x} (digits : number? (renderFloat x).toList = some (.float x)) :
    Writable depth (.float x)
  | str {depth s} : Writable depth (.str s)
  | arr {depth items} (each : ∀ j ∈ items, Writable depth j) : Writable (depth + 1) (.arr items)
  | obj {depth members} (each : ∀ m ∈ members, Writable depth m.2) :
    Writable (depth + 1) (.obj members)

/-- A record is writable if its members are. -/
theorem Writable.record {depth : Nat} {members : List (Option (String × Json))}
    (h : ∀ m ∈ members, ∀ e ∈ m, Writable depth e.2) : Writable (depth + 1) (record members) := by
  refine .obj fun e he => ?_
  obtain ⟨m, hm, heq⟩ := List.mem_filterMap.mp he
  exact h m hm e heq

theorem writable_always {depth : Nat} {name : String} {j : Json} (h : Writable depth j) :
    ∀ e ∈ always name j, Writable depth e.2 := by
  intro e he
  obtain rfl := Option.some.inj he
  exact h

theorem writable_memberUnless {depth : Nat} {silent : Bool} {name : String} {j : Json}
    (h : Writable depth j) : ∀ e ∈ memberUnless silent name j, Writable depth e.2 := by
  cases silent with
  | true => exact fun e he => absurd he (Option.not_mem_none e)
  | false => exact writable_always h

theorem writable_whenSome {α : Type} {depth : Nat} {name : String} {f : α → Json} {o : Option α}
    (h : ∀ a, Writable depth (f a)) : ∀ e ∈ whenSome name f o, Writable depth e.2 := by
  cases o with
  | none => exact fun e he => absurd he (Option.not_mem_none e)
  | some a => exact writable_always (h a)

/-! ### From the text to the tokens -/

/-- The text is cut into the tokens, and a new one begins behind it. -/
def Cut (text : String) (ts : List Token) : Prop :=
  text.toList.foldlM stepMode (Mode.between, []) = some (.between, ts.reverse)

/-- The text has the tokens, but the last one may still be open. -/
inductive Read (text : String) (ts : List Token) : Prop where
  | cut (h : Cut text ts)
  | run {before seen j} (hts : ts = before ++ [.scalar j]) (hj : ofRun? seen.reverse = some j)
    (h : text.toList.foldlM stepMode (Mode.between, []) = some (.run seen, before.reverse))

variable {text out : String} {ts : List Token} {c : Char} {t : Token} {j : Json}

theorem cut_empty : Cut "" [] := rfl

/-- A text that is read has these tokens. -/
theorem Read.tokens? (h : Read text ts) : Json.tokens? text.toList = some ts := by
  unfold Json.tokens?
  cases h with
  | cut h =>
    rw [h]
    simp
  | run hts hj h =>
    rw [h]
    simp [hts, hj]

/-- A bracket or a separator is a token of its own. -/
theorem stepBetween_of_punctuation? (h : punctuation? c = some t) :
    isRunChar c = false ∧ ∀ before, stepBetween before c = some (.between, t :: before) := by
  unfold punctuation? at h
  split at h
  case h_7 => cases h
  all_goals
    obtain rfl := Option.some.inj h
    exact ⟨by decide, fun _ => rfl⟩

/-- A bracket or a separator closes what is open. -/
theorem Read.punctuation (h : Read out ts) (htext : text.toList = [c])
    (hc : punctuation? c = some t) : Cut (out ++ text) (ts ++ [t]) := by
  obtain ⟨hrun, hstep⟩ := stepBetween_of_punctuation? hc
  unfold Cut
  rw [String.toList_append, htext]
  cases h with
  | cut h =>
    rw [foldlM_append_of_eq h]
    simp [stepMode, hstep]
  | run hts hj h =>
    rw [foldlM_append_of_eq h]
    simp [stepMode, hrun, hj, hstep, hts]

theorem stepBetween_of_isRunChar (h : isRunChar c = true) (before : List Token) :
    stepBetween before c = some (.run [c], before) := by
  have hne (d : Char) (hd : isRunChar d = false) : c ≠ d := by
    rintro rfl
    exact Bool.noConfusion (h.symm.trans hd)
  unfold stepBetween
  rw [if_neg, if_neg (hne '"' (by decide)), if_pos h]
  rintro (hblank | hblank | hblank | hblank)
  · exact hne ' ' (by decide) hblank
  · exact hne '\n' (by decide) hblank
  · exact hne '\t' (by decide) hblank
  · exact hne '\r' (by decide) hblank

theorem foldlM_run {cs : List Char} (h : RunChars cs) (seen : List Char) (before : List Token) :
    cs.foldlM stepMode (.run seen, before) = some (.run (cs.reverse ++ seen), before) := by
  induction cs generalizing seen with
  | nil => rfl
  | cons c cs ih =>
    obtain ⟨hc, hrest⟩ := List.forall_mem_cons.mp h
    have hstep : stepMode (.run seen, before) c = some (.run (c :: seen), before) := by
      unfold stepMode
      dsimp only
      rw [if_pos hc]
    rw [List.foldlM_cons, hstep, List.reverse_cons, List.append_assoc, List.singleton_append]
    exact ih hrest (c :: seen)

/-- A number or a word where a token may begin is read as far as it goes. -/
theorem Cut.run (h : Cut out ts) (hrun : RunFor text.toList j) :
    Read (out ++ text) (ts ++ [.scalar j]) := by
  obtain ⟨c, cs, htext⟩ := List.exists_cons_of_ne_nil hrun.nonempty
  obtain ⟨hchars, hvalue⟩ : RunChars text.toList ∧ ofRun? text.toList = some j :=
    ⟨hrun.chars, hrun.value⟩
  rw [htext] at hchars hvalue
  obtain ⟨hc, hcs⟩ := List.forall_mem_cons.mp hchars
  have hback : (cs.reverse ++ [c]).reverse = c :: cs := by simp
  refine .run rfl (hback ▸ hvalue) ?_
  rw [String.toList_append, foldlM_append_of_eq h, htext]
  simp [stepMode, stepBetween_of_isRunChar hc, foldlM_run hcs]

/-- A string is complete with its closing quote. -/
theorem Cut.quote (h : Cut out ts) (s : String) :
    Cut (out ++ Json.quote s) (ts ++ [.scalar (.str s)]) := by
  unfold Cut
  rw [String.toList_append, foldlM_append_of_eq h, foldlM_quote, List.reverse_append]
  rfl

/-- The comma that stands before all items but the first. -/
theorem Read.comma {first : Bool} (h : Read out ts) (hfirst : first = true → Cut out ts) :
    Cut (if first then out else out ++ ",") (ts ++ if first then [] else [.comma]) := by
  cases first with
  | true =>
    simp only [if_true, List.append_nil]
    exact hfirst rfl
  | false => exact h.punctuation rfl rfl

mutual

/-- **The compact form of a document has its tokens.** -/
theorem read_write : ∀ {j : Json} {depth : Nat} {out : String} {ts : List Token},
    Writable depth j → Cut out ts → Read (write out j) (ts ++ j.tokens)
  | .null, _, _, _, _, hcut => hcut.run ⟨by decide, by decide, rfl⟩
  | .bool true, _, _, _, _, hcut => hcut.run ⟨by decide, by decide, rfl⟩
  | .bool false, _, _, _, _, hcut => hcut.run ⟨by decide, by decide, rfl⟩
  | .int i, _, _, _, h, hcut => by
    cases h with
    | int lower upper => exact hcut.run (runFor_int lower upper)
  | .float x, _, _, _, h, hcut => by
    cases h with
    | float digits => exact hcut.run (runFor_float digits)
  | .str s, _, _, _, _, hcut => .cut (hcut.quote s)
  | .arr items, _, out, ts, h, hcut => by
    cases h with
    | arr each =>
      have hopen : Cut (out ++ "[") (ts ++ [.openArr]) := (Read.cut hcut).punctuation rfl rfl
      have hitems := read_writeItems each (.cut hopen) fun _ : true = true => hopen
      have hclose : Cut (writeItems (out ++ "[") true items ++ "]") _ :=
        hitems.punctuation rfl rfl
      rw [write, tokens]
      refine .cut ?_
      simpa using hclose
  | .obj members, _, out, ts, h, hcut => by
    cases h with
    | obj each =>
      have hopen : Cut (out ++ r"{") (ts ++ [.openObj]) := (Read.cut hcut).punctuation rfl rfl
      have hmembers := read_writeMembers each (.cut hopen) fun _ : true = true => hopen
      have hclose : Cut (writeMembers (out ++ r"{") true members ++ r"}") _ :=
        hmembers.punctuation rfl rfl
      rw [write, tokens]
      refine .cut ?_
      simpa using hclose

theorem read_writeItems : ∀ {items : List Json} {depth : Nat} {first : Bool} {out : String}
    {ts : List Token}, (∀ j ∈ items, Writable depth j) → Read out ts →
    (first = true → Cut out ts) → Read (writeItems out first items) (ts ++ itemTokens first items)
  | [], _, _, _, _, _, hread, _ => by
    rw [writeItems, itemTokens, List.append_nil]
    exact hread
  | j :: js, _, _, _, _, each, hread, hfirst => by
    obtain ⟨hj, hjs⟩ := List.forall_mem_cons.mp each
    have hitem := read_write hj (hread.comma hfirst)
    have hrest := read_writeItems hjs hitem fun heq : false = true => Bool.noConfusion heq
    rw [writeItems, itemTokens]
    simpa only [List.append_assoc] using hrest

theorem read_writeMembers : ∀ {members : List (String × Json)} {depth : Nat} {first : Bool}
    {out : String} {ts : List Token}, (∀ m ∈ members, Writable depth m.2) → Read out ts →
    (first = true → Cut out ts) →
    Read (writeMembers out first members) (ts ++ memberTokens first members)
  | [], _, _, _, _, _, hread, _ => by
    rw [writeMembers, memberTokens, List.append_nil]
    exact hread
  | (k, j) :: ms, _, _, _, _, each, hread, hfirst => by
    obtain ⟨hj, hms⟩ := List.forall_mem_cons.mp each
    have hkey := (hread.comma hfirst).quote k
    have hcolon : Cut (_ ++ ":") _ := (Read.cut hkey).punctuation rfl rfl
    have hmember := read_write hj hcolon
    have hrest := read_writeMembers hms hmember fun heq : false = true => Bool.noConfusion heq
    rw [writeMembers, memberTokens]
    simpa only [List.append_assoc, List.cons_append, List.nil_append] using hrest

end

/-- The compact form of a document is cut into its tokens. -/
theorem tokens?_compact {depth : Nat} (h : Writable depth j) :
    Json.tokens? j.compact.toList = some j.tokens :=
  (read_write h cut_empty).tokens?

/-! ### From the tokens to the document -/

/-- The first token of a document does not end an array. -/
theorem exists_tokens_eq_cons (j : Json) : ∃ t rest, j.tokens = t :: rest ∧ t ≠ .closeArr := by
  cases j with
  | arr items => exact ⟨.openArr, _, by rw [tokens], Token.noConfusion⟩
  | obj members => exact ⟨.openObj, _, by rw [tokens], Token.noConfusion⟩
  | _ => exact ⟨.scalar _, [], rfl, Token.noConfusion⟩

/-- Where a document follows, an array that has just been opened has an item. -/
theorem foldlM_itemOrEnd (j : Json) (rest : List Token) (stack : List Context) :
    (j.tokens ++ rest).foldlM stepExpect (.itemOrEnd stack) =
      (j.tokens ++ rest).foldlM stepExpect (.value (.items [] :: stack)) := by
  obtain ⟨t, more, htokens, ht⟩ := j.exists_tokens_eq_cons
  have hstep : stepExpect (.itemOrEnd stack) t =
      stepExpect (.value (.items [] :: stack)) t := by
    cases t with
    | closeArr => exact absurd rfl ht
    | _ => rfl
  rw [htokens, List.cons_append, List.foldlM_cons, List.foldlM_cons, hstep]

mutual

/-- **The tokens of a document are put together to the document**, if it is not nested too deeply
where it stands. -/
theorem foldlM_tokens : ∀ {j : Json} {depth : Nat} {stack : List Context},
    Writable depth j → stack.length + depth ≤ maxDepth →
    j.tokens.foldlM stepExpect (.value stack) = some (complete j stack)
  | .null, _, _, _, _ | .bool _, _, _, _, _ | .int _, _, _, _, _ | .float _, _, _, _, _
  | .str _, _, _, _, _ => rfl
  | .arr items, _, stack, h, hdepth => by
    cases h with
    | @arr depth _ each =>
      have hopen : [Token.openArr].foldlM stepExpect (.value stack) = some (.itemOrEnd stack) := by
        simp [stepExpect, startValue, show stack.length < maxDepth by omega]
      rw [tokens, ← List.singleton_append, foldlM_append_of_eq hopen]
      cases items with
      | nil => rfl
      | cons j js =>
        obtain ⟨hj, hjs⟩ := List.forall_mem_cons.mp each
        have hitem : j.tokens.foldlM stepExpect (.value (.items [] :: stack)) =
            some (.more j (.items [] :: stack)) :=
          foldlM_tokens hj (by rw [List.length_cons]; omega)
        have htokens : itemTokens true (j :: js) ++ [.closeArr] =
            j.tokens ++ (itemTokens false js ++ [.closeArr]) := by
          rw [itemTokens]
          simp
        rw [htokens, foldlM_itemOrEnd, foldlM_append_of_eq hitem, foldlM_itemTokens hjs hdepth]
        rfl
  | .obj members, _, stack, h, hdepth => by
    cases h with
    | @obj depth _ each =>
      have hopen : [Token.openObj].foldlM stepExpect (.value stack) = some (.keyOrEnd stack) := by
        simp [stepExpect, startValue, show stack.length < maxDepth by omega]
      rw [tokens, ← List.singleton_append, foldlM_append_of_eq hopen]
      cases members with
      | nil => rfl
      | cons m ms =>
        obtain ⟨hm, hms⟩ := List.forall_mem_cons.mp each
        have hkey : [Token.scalar (.str m.1), .colon].foldlM stepExpect (.keyOrEnd stack) =
            some (.value (.member [] m.1 :: stack)) := rfl
        have hvalue : m.2.tokens.foldlM stepExpect (.value (.member [] m.1 :: stack)) =
            some (.more m.2 (.member [] m.1 :: stack)) :=
          foldlM_tokens hm (by rw [List.length_cons]; omega)
        have htokens : memberTokens true (m :: ms) ++ [.closeObj] =
            [.scalar (.str m.1), .colon] ++
              (m.2.tokens ++ (memberTokens false ms ++ [.closeObj])) := by
          rw [memberTokens]
          simp
        rw [htokens, foldlM_append_of_eq hkey, foldlM_append_of_eq hvalue,
          foldlM_memberTokens hms hdepth]
        rfl

/-- The items behind the first one, up to the end of the array. -/
theorem foldlM_itemTokens : ∀ {js : List Json} {depth : Nat} {v : Json} {before : List Json}
    {stack : List Context}, (∀ j ∈ js, Writable depth j) → stack.length + (depth + 1) ≤ maxDepth →
    (itemTokens false js ++ [Token.closeArr]).foldlM stepExpect
      (.more v (.items before :: stack)) =
        some (complete (.arr ((v :: before).reverse ++ js)) stack)
  | [], _, v, before, stack, _, _ => by
    rw [itemTokens, List.append_nil]
    rfl
  | j :: js, depth, v, before, stack, each, hdepth => by
    obtain ⟨hj, hjs⟩ := List.forall_mem_cons.mp each
    have hcomma : [Token.comma].foldlM stepExpect (.more v (.items before :: stack)) =
        some (.value (.items (v :: before) :: stack)) := rfl
    have hitem : j.tokens.foldlM stepExpect (.value (.items (v :: before) :: stack)) =
        some (.more j (.items (v :: before) :: stack)) :=
      foldlM_tokens hj (by rw [List.length_cons]; omega)
    have htokens : itemTokens false (j :: js) ++ [.closeArr] =
        [.comma] ++ (j.tokens ++ (itemTokens false js ++ [.closeArr])) := by
      rw [itemTokens]
      simp
    rw [htokens, foldlM_append_of_eq hcomma, foldlM_append_of_eq hitem,
      foldlM_itemTokens hjs hdepth]
    simp

/-- The members behind the first one, up to the end of the object. -/
theorem foldlM_memberTokens : ∀ {ms : List (String × Json)} {depth : Nat} {k : String} {v : Json}
    {before : List (String × Json)} {stack : List Context}, (∀ m ∈ ms, Writable depth m.2) →
    stack.length + (depth + 1) ≤ maxDepth →
    (memberTokens false ms ++ [Token.closeObj]).foldlM stepExpect
      (.more v (.member before k :: stack)) =
        some (complete (.obj (((k, v) :: before).reverse ++ ms)) stack)
  | [], _, k, v, before, stack, _, _ => by
    rw [memberTokens, List.append_nil]
    rfl
  | m :: ms, depth, k, v, before, stack, each, hdepth => by
    obtain ⟨hm, hms⟩ := List.forall_mem_cons.mp each
    have hkey : [Token.comma, .scalar (.str m.1), .colon].foldlM stepExpect
        (.more v (.member before k :: stack)) =
          some (.value (.member ((k, v) :: before) m.1 :: stack)) := rfl
    have hvalue : m.2.tokens.foldlM stepExpect (.value (.member ((k, v) :: before) m.1 :: stack)) =
        some (.more m.2 (.member ((k, v) :: before) m.1 :: stack)) :=
      foldlM_tokens hm (by rw [List.length_cons]; omega)
    have htokens : memberTokens false (m :: ms) ++ [.closeObj] =
        [.comma, .scalar (.str m.1), .colon] ++
          (m.2.tokens ++ (memberTokens false ms ++ [.closeObj])) := by
      rw [memberTokens]
      simp
    rw [htokens, foldlM_append_of_eq hkey, foldlM_append_of_eq hvalue,
      foldlM_memberTokens hms hdepth]
    simp

end

theorem ofTokens?_tokens {depth : Nat} (h : Writable depth j) (hdepth : depth ≤ maxDepth) :
    ofTokens? j.tokens = some j := by
  unfold ofTokens?
  rw [foldlM_tokens h (by simpa using hdepth)]
  rfl

/-- **A document is read back from its compact form.** -/
theorem parse?_compact {depth : Nat} (h : Writable depth j) (hdepth : depth ≤ maxDepth) :
    parse? j.compact = some j := by
  unfold parse?
  rw [tokens?_compact h, Option.bind_some, ofTokens?_tokens h hdepth]

end SymbolicVM.Json
