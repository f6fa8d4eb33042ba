import ShaderGraph.Glsl.Compile
import ShaderGraph.Proofs.Inputs
import ShaderGraph.Proofs.Glsl.Rendering

namespace ShaderGraph.Glsl

inductive Name where
  | node (id : NodeId)
  | sampler (unit : Nat)
  deriving DecidableEq, Repr

def Name.text : Name → String
  | node id => nodeName id
  | sampler unit => samplerName unit

def isNameChar (c : Char) : Bool := c.isAlphanum || c = '_'

/-- The longest runs of letters, digits and underscores. -/
def words (cs : List Char) : List (List Char) :=
  (cs.splitOnP fun c => !isNameChar c).filter (· ≠ [])

def Mentions (cs : List Char) (v : Name) : Prop := v.text.toList ∈ words cs

instance (cs : List Char) (v : Name) : Decidable (Mentions cs v) :=
  inferInstanceAs (Decidable (_ ∈ _))

/-- Words end at any other character. -/
theorem words_append {c : Char} (hc : isNameChar c = false) (xs ys : List Char) :
    words (xs ++ c :: ys) = words xs ++ words ys := by
  rw [words, List.splitOnP_append_cons xs ys (by simp [hc]), List.filter_append]
  rfl

theorem words_cons {c : Char} (hc : isNameChar c = false) (cs : List Char) :
    words (c :: cs) = words cs :=
  words_append hc [] cs

theorem words_run {w : List Char} (hw : ∀ c ∈ w, isNameChar c = true) :
    words w = if w = [] then [] else [w] := by
  rw [words, List.splitOnP_eq_singleton fun c hc => by simp [hw c hc]]
  by_cases h : w = [] <;> simp [h]

theorem mentions_append {c : Char} (hc : isNameChar c = false) {xs ys : List Char} {v : Name} :
    Mentions (xs ++ c :: ys) v ↔ Mentions xs v ∨ Mentions ys v := by
  rw [Mentions, words_append hc, List.mem_append]
  rfl

theorem mentions_cons {c : Char} (hc : isNameChar c = false) {cs : List Char} {v : Name} :
    Mentions (c :: cs) v ↔ Mentions cs v := by
  rw [Mentions, words_cons hc]
  rfl

theorem not_mentions_nil (v : Name) : ¬ Mentions [] v := by
  simp [Mentions, words]

theorem isNameChar_of_isDigit {c : Char} (h : c.isDigit = true) : isNameChar c = true := by
  simp [isNameChar, Char.isAlphanum, h]

/-- Letters with a number behind them are one word. -/
theorem numbered_isName {stem : List Char} (h : stem.all isNameChar = true) (n : Nat) :
    ∀ c ∈ stem ++ Nat.toDigits 10 n, isNameChar c = true := by
  intro c hc
  rcases List.mem_append.mp hc with hc | hc
  · exact List.all_eq_true.mp h c hc
  · exact isNameChar_of_isDigit (Nat.isDigit_of_mem_toDigits (by decide) (by decide) hc)

namespace Name

def stem : Name → List Char
  | node _ => ['n', 'o', 'd', 'e', '_']
  | sampler _ => ['t', 'e', 'x', 't', 'u', 'r', 'e', '_']

def number : Name → Nat
  | node id => id
  | sampler unit => unit

theorem text_toList (v : Name) : v.text.toList = v.stem ++ Nat.toDigits 10 v.number := by
  cases v with
  | node id => exact nodeName_toList id
  | sampler unit =>
    have hstem : (toString "texture_").toList = ['t', 'e', 'x', 't', 'u', 'r', 'e', '_'] := rfl
    simp [text, samplerName, stem, number, hstem]

theorem text_isName (v : Name) : ∀ c ∈ v.text.toList, isNameChar c = true := by
  rw [text_toList]
  cases v with
  | node id => exact numbered_isName rfl id
  | sampler unit => exact numbered_isName rfl unit

theorem text_ne_nil (v : Name) : v.text.toList ≠ [] := by
  rw [text_toList]
  cases v <;> simp [stem]

theorem text_injective {v w : Name} (h : v.text.toList = w.text.toList) : v = w := by
  have hdigits : ∀ {i j}, Nat.toDigits 10 i = Nat.toDigits 10 j → i = j := by
    intro i j hij
    have hread := congrArg Text.digits? hij
    rwa [Text.digits?_toDigits, Text.digits?_toDigits, Option.some_inj] at hread
  rw [text_toList, text_toList] at h
  cases v <;> cases w <;> simp [stem, number] at h
  · rw [hdigits h]
  · rw [hdigits h]

end Name

theorem mentions_text {v w : Name} : Mentions w.text.toList v ↔ v = w := by
  rw [Mentions, words_run w.text_isName, if_neg w.text_ne_nil, List.mem_singleton]
  constructor
  · exact Name.text_injective
  · rintro rfl
    rfl

/-- A text of one line in which no name of a node or sampler occurs. -/
structure Foreign (cs : List Char) : Prop where
  not_mentions : ∀ v, ¬ Mentions cs v
  one_line : '\n' ∉ cs

/-- It is enough that no word starts like a name. -/
def hasNoStem (cs : List Char) : Bool :=
  (words cs).all (fun w => !(Name.node 0).stem.isPrefixOf w &&
    !(Name.sampler 0).stem.isPrefixOf w) && !cs.contains '\n'

theorem foreign_of_stems {cs : List Char} (h : hasNoStem cs = true) : Foreign cs := by
  obtain ⟨hstems, hline⟩ := Bool.and_eq_true_iff.mp h
  refine ⟨fun v hv => ?_, by simpa using hline⟩
  have hw := List.all_eq_true.mp hstems _ hv
  rw [Name.text_toList] at hw
  cases v <;> simp [Name.stem] at hw

theorem Foreign.append {c : Char} (hc : isNameChar c = false) (hline : c ≠ '\n')
    {xs ys : List Char} (hx : Foreign xs) (hy : Foreign ys) : Foreign (xs ++ c :: ys) where
  not_mentions v hv := by
    rcases (mentions_append hc).mp hv with hv | hv
    · exact hx.not_mentions v hv
    · exact hy.not_mentions v hv
  one_line := by simp [hx.one_line, hy.one_line, hline.symm]

theorem newline_notMem_digits {ds : List Char} (h : ∀ c ∈ ds, c.isDigit = true) : '\n' ∉ ds :=
  fun hmem => absurd (h _ hmem) (by decide)

theorem newline_notMem_name {w : List Char} (h : ∀ c ∈ w, isNameChar c = true) : '\n' ∉ w :=
  fun hmem => absurd (h _ hmem) (by decide)

theorem foreign_digits {ds : List Char} (h : ∀ c ∈ ds, c.isDigit = true) : Foreign ds := by
  refine ⟨fun v hv => ?_, newline_notMem_digits h⟩
  rw [Mentions, words_run fun c hc => isNameChar_of_isDigit (h c hc)] at hv
  split at hv
  · cases hv
  · rw [List.mem_singleton] at hv
    have hhead : ∃ c ∈ v.text.toList, c.isDigit = false := by
      rw [Name.text_toList]
      cases v <;> simp [Name.stem]
    obtain ⟨c, hc, hdigit⟩ := hhead
    rw [h c (hv ▸ hc)] at hdigit
    cases hdigit

theorem foreign_toDigits (n : Nat) : Foreign (Nat.toDigits 10 n) :=
  foreign_digits fun _ hc => Nat.isDigit_of_mem_toDigits (by decide) (by decide) hc

theorem foreign_numberText (x : Scalar) : Foreign (numberText x).toList := by
  by_cases hx : x.isFinite = true
  · obtain ⟨negative, m, e, hp⟩ := Scalar.parts_of_isFinite hx
    obtain ⟨whole, fraction, ⟨⟨y, hspells⟩, _⟩, htext⟩ := numberText_spelling hx hp
    have hmagnitude : Foreign (whole ++ '.' :: fraction) :=
      (foreign_digits hspells.whole_digits).append (by decide) (by decide)
        (foreign_digits hspells.fraction_digits)
    rw [htext]
    cases negative with
    | false => exact hmagnitude
    | true =>
      have hnothing : Foreign [] := foreign_digits (by simp)
      exact hnothing.append (by decide) (by decide) hmagnitude
  · rw [numberText, if_neg hx]
    exact foreign_of_stems (by decide)

theorem foreign_funcName (f : Func) : Foreign f.name.toList := by
  cases f with
  | vec n =>
    have hname : ∀ c ∈ ['v', 'e', 'c'] ++ Nat.toDigits 10 n, isNameChar c = true :=
      numbered_isName (by decide) n
    refine ⟨fun v hv => ?_, vecName_toList n ▸ newline_notMem_name hname⟩
    rw [vecName_toList, Mentions, words_run (numbered_isName (by decide) n), if_neg (by simp),
      List.mem_singleton, Name.text_toList] at hv
    cases v <;> simp [Name.stem] at hv
  | _ => exact foreign_of_stems (by decide)

mutual

def Expr.Over (V : Name → Prop) : Expr → Prop
  | .node id => V (.node id)
  | .sampler unit => V (.sampler unit)
  | .ident name => Foreign name.toList
  | .number _ | .blank => True
  | .call _ args => Expr.AllOver V args
  | .binary _ a b => a.Over V ∧ b.Over V
  | .bracket e => e.Over V
  | .field e letters => e.Over V ∧ Foreign letters.toList
  | .element m _ _ => m.Over V

def Expr.AllOver (V : Name → Prop) : List Expr → Prop
  | [] => True
  | e :: es => e.Over V ∧ Expr.AllOver V es

end

variable {V : Name → Prop}

theorem opText_toList (op : Op) : ∃ c, isNameChar c = false ∧ op.text.toList = [' ', c, ' '] := by
  cases op with
  | add => exact ⟨'+', by decide, rfl⟩
  | sub => exact ⟨'-', by decide, rfl⟩
  | mul => exact ⟨'*', by decide, rfl⟩
  | div => exact ⟨'/', by decide, rfl⟩

theorem call_toList (f : Func) (args : List Expr) :
    (Expr.call f args).render.toList = f.name.toList ++
      '(' :: ((String.intercalate ", " (Expr.renderAll args)).toList ++ ')' :: []) := by
  simp [Expr.render]

theorem arguments_toList (e e' : Expr) (es : List Expr) :
    (String.intercalate ", " (Expr.renderAll (e :: e' :: es))).toList =
      e.render.toList ++ ',' :: ' ' ::
        (String.intercalate ", " (Expr.renderAll (e' :: es))).toList := by
  have hcomma : (", " : String).toList = [',', ' '] := rfl
  simp [Expr.renderAll, String.intercalate_cons_cons, hcomma]

theorem binary_toList (op : Op) : ∃ c, isNameChar c = false ∧ ∀ a b,
    (Expr.binary op a b).render.toList =
      a.render.toList ++ ' ' :: c :: ' ' :: b.render.toList := by
  obtain ⟨c, hc, hop⟩ := opText_toList op
  exact ⟨c, hc, fun a b => by simp [Expr.render, hop]⟩

theorem bracket_toList (e : Expr) :
    (Expr.bracket e).render.toList = '(' :: (e.render.toList ++ ')' :: []) := by
  simp [Expr.render]

theorem field_toList (e : Expr) (letters : String) :
    (Expr.field e letters).render.toList = e.render.toList ++ '.' :: letters.toList := by
  simp [Expr.render]

theorem element_toList (m : Expr) (column row : Nat) :
    (Expr.element m column row).render.toList = m.render.toList ++
      '[' :: (Nat.toDigits 10 column ++ ']' :: '[' :: (Nat.toDigits 10 row ++ ']' :: [])) := by
  have hopen : (toString "[").toList = ['['] := rfl
  have hbetween : (toString "][").toList = [']', '['] := rfl
  have hclose : (toString "]").toList = [']'] := rfl
  simp [Expr.render, hopen, hbetween, hclose]

mutual

/-- The text of an expression mentions only what the expression reads. -/
theorem over_of_mentions : ∀ (e : Expr) (_ : e.Over V) {v : Name}, Mentions e.render.toList v → V v
  | .node id, h, v, hv => by
    obtain rfl : v = .node id := mentions_text.mp hv
    exact h
  | .sampler unit, h, v, hv => by
    obtain rfl : v = .sampler unit := mentions_text.mp hv
    exact h
  | .ident name, h, v, hv => absurd hv (h.not_mentions v)
  | .number x, _, v, hv => absurd hv ((foreign_numberText x).not_mentions v)
  | .call f args, h, v, hv => by
    rw [call_toList] at hv
    rcases (mentions_append (by decide)).mp hv with hv | hv
    · exact absurd hv ((foreign_funcName f).not_mentions v)
    · rcases (mentions_append (by decide)).mp hv with hv | hv
      · exact over_of_mentions_args args h hv
      · exact absurd hv (not_mentions_nil v)
  | .binary op a b, ⟨ha, hb⟩, v, hv => by
    obtain ⟨c, hc, htext⟩ := binary_toList op
    rw [htext, mentions_append (by decide), mentions_cons hc, mentions_cons (by decide)] at hv
    rcases hv with hv | hv
    · exact over_of_mentions a ha hv
    · exact over_of_mentions b hb hv
  | .bracket e, h, v, hv => by
    rw [bracket_toList, mentions_cons (by decide), mentions_append (by decide)] at hv
    rcases hv with hv | hv
    · exact over_of_mentions e h hv
    · exact absurd hv (not_mentions_nil v)
  | .field e letters, ⟨he, hl⟩, v, hv => by
    rw [field_toList, mentions_append (by decide)] at hv
    rcases hv with hv | hv
    · exact over_of_mentions e he hv
    · exact absurd hv (hl.not_mentions v)
  | .element m column row, h, v, hv => by
    rw [element_toList, mentions_append (by decide), mentions_append (by decide),
      mentions_cons (by decide), mentions_append (by decide)] at hv
    rcases hv with hv | hv | hv | hv
    · exact over_of_mentions m h hv
    · exact absurd hv ((foreign_toDigits column).not_mentions v)
    · exact absurd hv ((foreign_toDigits row).not_mentions v)
    · exact absurd hv (not_mentions_nil v)
  | .blank, _, v, hv => absurd hv (not_mentions_nil v)

theorem over_of_mentions_args : ∀ (args : List Expr) (_ : Expr.AllOver V args) {v : Name},
    Mentions (String.intercalate ", " (Expr.renderAll args)).toList v → V v
  | [], _, v, hv => absurd hv (not_mentions_nil v)
  | [e], ⟨he, _⟩, v, hv => by
    rw [show Expr.renderAll [e] = [e.render] from rfl, String.intercalate_singleton] at hv
    exact over_of_mentions e he hv
  | e :: e' :: es, ⟨he, hes⟩, v, hv => by
    rw [arguments_toList, mentions_append (by decide), mentions_cons (by decide)] at hv
    rcases hv with hv | hv
    · exact over_of_mentions e he hv
    · exact over_of_mentions_args (e' :: es) hes hv

end

mutual

/-- An expression stands on one line. -/
theorem one_line_render : ∀ (e : Expr) (_ : e.Over V), '\n' ∉ e.render.toList
  | .node id, _ => newline_notMem_name (Name.node id).text_isName
  | .sampler unit, _ => newline_notMem_name (Name.sampler unit).text_isName
  | .ident _, h => h.one_line
  | .number x, _ => (foreign_numberText x).one_line
  | .call f args, h => by
    have hargs := one_line_arguments args h
    rw [call_toList]
    grind [(foreign_funcName f).one_line]
  | .binary op a b, ⟨ha, hb⟩ => by
    have hop : '\n' ∉ op.text.toList := by cases op <;> decide
    simp [Expr.render, hop, one_line_render a ha, one_line_render b hb]
  | .bracket e, h => by simp [bracket_toList, one_line_render e h]
  | .field e letters, ⟨he, hl⟩ => by simp [field_toList, one_line_render e he, hl.one_line]
  | .element m column row, h => by
    simp [element_toList, one_line_render m h, (foreign_toDigits column).one_line,
      (foreign_toDigits row).one_line]
  | .blank, _ => List.not_mem_nil

theorem one_line_arguments : ∀ (args : List Expr) (_ : Expr.AllOver V args),
    '\n' ∉ (String.intercalate ", " (Expr.renderAll args)).toList
  | [], _ => List.not_mem_nil
  | [e], ⟨he, _⟩ => by
    rw [show Expr.renderAll [e] = [e.render] from rfl, String.intercalate_singleton]
    exact one_line_render e he
  | e :: e' :: es, ⟨he, hes⟩ => by
    have hfirst := one_line_render e he
    have hrest := one_line_arguments (e' :: es) hes
    rw [arguments_toList]
    grind

end

/-- A call mentions what its first argument mentions. -/
theorem mentions_call (f : Func) {e : Expr} {v : Name} (hv : Mentions e.render.toList v)
    (es : List Expr) : Mentions (Expr.call f (e :: es)).render.toList v := by
  rw [call_toList, mentions_append (by decide), mentions_append (by decide)]
  refine .inr (.inl ?_)
  cases es with
  | nil => rwa [show Expr.renderAll [e] = [e.render] from rfl, String.intercalate_singleton]
  | cons e' es =>
    rw [arguments_toList, mentions_append (by decide)]
    exact .inl hv

theorem allOver_iff {es : List Expr} : Expr.AllOver V es ↔ ∀ e ∈ es, e.Over V := by
  induction es with
  | nil => simp [Expr.AllOver]
  | cons e es ih => simp [Expr.AllOver, ih]

section Build

variable {a b c : Expr}

theorem over_call (f : Func) {args : List Expr} (h : ∀ e ∈ args, e.Over V) :
    (Expr.call f args).Over V :=
  allOver_iff.mpr h

theorem over_call1 (f : Func) (ha : a.Over V) : (Expr.call1 f a).Over V := ⟨ha, trivial⟩

theorem over_call2 (f : Func) (ha : a.Over V) (hb : b.Over V) : (Expr.call2 f a b).Over V :=
  ⟨ha, hb, trivial⟩

theorem over_call3 (f : Func) (ha : a.Over V) (hb : b.Over V) (hc : c.Over V) :
    (Expr.call f [a, b, c]).Over V :=
  ⟨ha, hb, hc, trivial⟩

theorem over_binary (op : Op) (ha : a.Over V) (hb : b.Over V) : (Expr.binary op a b).Over V :=
  ⟨ha, hb⟩

end Build

section Node

variable {operands : Slots Operand} {os : List Operand} {es : List Expr}

theorem over_chain (op : Op) (h : ∀ e ∈ es, e.Over V) : (Expr.chain op es).Over V := by
  cases es with
  | nil => trivial
  | cons e es =>
    exact List.foldlRecOn es _ (h e (by simp)) fun b hb x hx =>
      over_binary op hb (h x (by simp [hx]))

theorem over_nested (f : Func) (h : ∀ e ∈ es, e.Over V) : (nested f es).Over V := by
  cases es with
  | nil => trivial
  | cons e es =>
    exact List.foldlRecOn es _ (h e (by simp)) fun b hb x hx => over_call2 f hb (h x (by simp [hx]))

theorem over_times {p : Product} {o : Operand} (hp : p.expr.Over V) (ho : V (.node o.id)) :
    (p.times o).expr.Over V := by
  have hleft : (if p.compound then .bracket p.expr else p.expr : Expr).Over V := by
    split <;> exact hp
  simp only [Product.times]
  split
  · exact over_binary .mul ho hleft
  · exact over_binary .mul hleft ho

theorem over_product (h : ∀ o ∈ os, V (.node o.id)) : (Product.ofOperands os).Over V := by
  cases os with
  | nil => trivial
  | cons o os =>
    refine List.foldlRecOn (motive := fun p : Product => p.expr.Over V) os _ (h o (by simp)) ?_
    intro p hp x hx
    exact over_times hp (h x (by simp [hx]))

theorem over_widen {o : Operand} (h : V (.node o.id)) (n : Nat) : (o.widen n).Over V := by
  unfold Operand.widen
  split
  · exact over_call1 (.vec n) h
  · exact h

theorem over_getD {x : Option Operand} {f : Operand → Expr} {e : Expr}
    (hf : ∀ o, x = some o → (f o).Over V) (he : e.Over V) : ((x.map f).getD e).Over V := by
  cases x with
  | none => exact he
  | some o => exact hf o rfl

theorem over_read (a : Attribute) (s : Stage) : (a.read s).Over V := by
  cases a <;> cases s <;> exact foreign_of_stems (by decide)

theorem over_normal (s : Stage) : (normal s).Over V := by
  cases s with
  | vertex => exact over_read .normal .vertex
  | fragment => exact over_call1 .normalize (over_read .normal .fragment)

theorem over_viewDirection (s : Stage) : (viewDirection s).Over V :=
  over_call1 .normalize (over_binary .sub (foreign_of_stems (by decide)) (over_read .position s))

theorem over_fresnel (s : Stage) : (fresnel s).Over V := by
  have hfacing : (Expr.call2 .dot (normal s) (viewDirection s)).Over V :=
    over_call2 .dot (over_normal s) (over_viewDirection s)
  exact over_call2 .pow (over_binary .sub trivial (over_call3 .clamp hfacing trivial trivial))
    trivial

theorem over_select {e : Expr} (he : e.Over V) (mode : Option Operand) :
    (select e mode).Over V := by
  unfold select
  split
  · rename_i letters hletters
    refine ⟨he, ?_⟩
    unfold Channel.swizzle? at hletters
    split at hletters <;> cases hletters <;> exact foreign_of_stems (by decide)
  · exact he

theorem over_sample (d : Dialect) (s : Stage) (h : ∀ o ∈ operands.filled, V (.node o.id))
    (hunit : V (.sampler (textureUnit ((operands.at? 0).map Operand.value)))) :
    (sample d s operands).Over V :=
  over_call2 d.texture hunit
    (over_getD (fun o ho => h o (Slots.mem_filled.mpr ⟨2, ho⟩)) (over_read .uv s))

theorem over_gray {c : Expr} (hc : c.Over V) :
    (Expr.call1 (.vec 3) (.call2 .dot c luma)).Over V :=
  over_call1 (.vec 3) (over_call2 .dot hc (over_call3 (.vec 3) trivial trivial trivial))

theorem over_transpose (d : Dialect) {m : Expr} (hm : m.Over V) : (d.transpose m).Over V := by
  cases d with
  | glsl330 => exact over_call1 .transpose hm
  | gles100 =>
    refine over_call .mat4 fun e he => ?_
    obtain ⟨i, _, rfl⟩ := List.mem_map.mp he
    exact hm

/-- The expression of a node reads its operands and, when it is a texture sample, its sampler. -/
theorem expression_over (d : Dialect) (s : Stage) {kind : Kind} (hk : kind.isLiteral = false)
    (id : NodeId) (h : ∀ o ∈ operands.filled, V (.node o.id))
    (hunit : kind = .textureSample →
      V (.sampler (textureUnit ((operands.at? 0).map Operand.value)))) :
    (expression d s kind id operands).Over V := by
  have hoperand : ∀ i, (((operands.at? i).map Operand.expr).getD .zero).Over V := fun i =>
    over_getD (fun o ho => h o (Slots.mem_filled.mpr ⟨i, ho⟩)) trivial
  have ha := hoperand 0
  have hb := hoperand 1
  have hexprs : ∀ e ∈ operands.filled.map Operand.expr, e.Over V := by
    intro e he
    obtain ⟨o, ho, rfl⟩ := List.mem_map.mp he
    exact h o ho
  have hwidened : ∀ i n, (((operands.at? i).map (Operand.widen · n)).getD .zero).Over V := by
    intro i n
    exact over_getD (fun o ho => over_widen (h o (Slots.mem_filled.mpr ⟨i, ho⟩)) n) trivial
  have hblended : ∀ n, ∀ e ∈ operands.filled.map (Operand.widen · n), e.Over V := by
    intro n e he
    obtain ⟨o, ho, rfl⟩ := List.mem_map.mp he
    exact over_widen (h o ho) n
  have hshare : (Expr.bracket (.binary .div
      (.call2 .dot (((operands.at? 0).map Operand.expr).getD .zero)
        (((operands.at? 1).map Operand.expr).getD .zero))
      (.call2 .dot (((operands.at? 1).map Operand.expr).getD .zero)
        (((operands.at? 1).map Operand.expr).getD .zero)))).Over V :=
    over_binary .div (over_call2 .dot ha hb) (over_call2 .dot hb hb)
  cases kind
  case time | mvpMatrix => exact foreign_of_stems (by decide)
  case position | uv => exact over_read _ s
  case normal => exact over_normal s
  case viewDirection => exact over_viewDirection s
  case fresnel => exact over_fresnel s
  case vertexColor => exact over_select (over_read .color s) _
  case textureSample => exact over_select (over_sample d s h (hunit rfl)) _
  case add | subtract | divide => exact over_chain _ hexprs
  case multiply => exact over_product h
  case max | min => exact over_nested _ hexprs
  case append =>
    simp only [expression]
    split
    · rename_i o ho
      exact h o (by simp [ho])
    · exact over_call _ hexprs
  case negate => exact over_binary .mul ha trivial
  case reciprocal => exact over_binary .div trivial ha
  case oneMinus => exact over_binary .sub trivial ha
  case trunc =>
    cases d with
    | glsl330 => exact over_call1 .trunc ha
    | gles100 =>
      exact over_binary .mul (over_call1 .sign ha) (over_call1 .floor (over_call1 .abs ha))
  case round =>
    cases d with
    | glsl330 => exact over_call1 .round ha
    | gles100 => exact over_call1 .floor (over_binary .add ha trivial)
  case saturate => exact over_call3 .clamp ha trivial trivial
  case dot | cross | distance => exact over_call2 _ ha hb
  case project => exact over_binary .mul hshare hb
  case reject => exact over_binary .sub ha (over_binary .mul hshare hb)
  case halfDirection =>
    exact over_call1 .normalize
      (over_binary .add (over_call1 .normalize ha) (over_call1 .normalize hb))
  case desaturate =>
    simp only [expression]
    split
    · have hcolor : (Expr.field (((operands.at? 0).map Operand.expr).getD .zero) "rgb").Over V :=
        ⟨ha, foreign_of_stems (by decide)⟩
      exact over_call2 (.vec 4) (over_call3 .mix hcolor (over_gray hcolor) hb)
        ⟨ha, foreign_of_stems (by decide)⟩
    · exact over_call3 .mix ha (over_gray ha) hb
  case power | step => exact over_call2 _ ha (hwidened 1 _)
  case posterize => exact over_binary .div (over_call1 .floor (over_binary .mul ha hb)) hb
  case lerp | smoothstep => exact over_call _ (hblended _)
  case transpose => exact over_transpose d ha
  case matrixMultiply => exact over_binary .mul ha hb
  case float | vector2 | vector3 | vector4 | matrix4 => cases hk
  case vertexOutput | fragmentOutput => exact ha
  all_goals exact over_call1 _ ha

end Node

end ShaderGraph.Glsl
