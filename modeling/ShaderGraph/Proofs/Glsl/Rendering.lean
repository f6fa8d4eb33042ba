import ShaderGraph.Proofs.Decimals
import ShaderGraph.Proofs.Records
import ShaderGraph.Proofs.Glsl.Grammar

namespace ShaderGraph.Glsl

theorem isWordChar_of_isAlphanum {c : Char} (h : c.isAlphanum = true) : isWordChar c = true := by
  simp [isWordChar, h]

theorem isWordChar_of_isDigit {c : Char} (h : c.isDigit = true) : isWordChar c = true :=
  isWordChar_of_isAlphanum (by simp [Char.isAlphanum, h])

theorem not_isBlank_of_isWordChar {c : Char} (h : isWordChar c = true) :
    Text.isBlank c = false := by
  have hrange : 46 ≤ c.toNat ∧ c.toNat ≤ 122 := by
    simp only [isWordChar, Char.isAlphanum, Char.isAlpha, Char.isUpper, Char.isLower,
      Char.isDigit, Bool.or_eq_true, Bool.and_eq_true, decide_eq_true_eq] at h
    have hnat : (((65 ≤ c.toNat ∧ c.toNat ≤ 90 ∨ 97 ≤ c.toNat ∧ c.toNat ≤ 122) ∨
        48 ≤ c.toNat ∧ c.toNat ≤ 57) ∨ c = '_') ∨ c = '.' := h
    rcases hnat with (_ | rfl) | rfl
    · omega
    · decide
    · decide
  unfold Text.isBlank
  simp only [Bool.or_eq_false_iff, Bool.and_eq_false_iff, decide_eq_false_iff_not]
  omega

theorem lexemes_blank {c : Char} (h : Text.isBlank c = true) (cs : List Char) :
    lexemes (c :: cs) = lexemes cs := by
  rw [lexemes, if_pos h]

theorem lexemes_mark {c : Char} (hb : Text.isBlank c = false) (hw : isWordChar c = false)
    (cs : List Char) : lexemes (c :: cs) = .mark c :: lexemes cs := by
  simp [lexemes, hb, hw]

/-- A word ends where a character comes that cannot go on with it. -/
theorem lexemes_word {w rest : List Char} (hne : w ≠ []) (hw : ∀ c ∈ w, isWordChar c = true)
    (hrest : ∀ c ∈ rest.head?, isWordChar c = false) :
    lexemes (w ++ rest) = .word w :: lexemes rest := by
  induction w with
  | nil => exact absurd rfl hne
  | cons c w ih =>
    have hc := hw c (by simp)
    have hb := not_isBlank_of_isWordChar hc
    cases w with
    | nil =>
      have hends : rest.head?.any isWordChar = false := by
        cases rest with
        | nil => rfl
        | cons d rest => simpa using hrest d (by simp)
      simp [lexemes, hb, hc, hends, Lexeme.attach]
    | cons d w =>
      have hd := hw d (by simp)
      have hrest := ih (by simp) fun x hx => hw x (by simp [hx])
      rw [List.cons_append, lexemes, hrest]
      simp [hb, hc, hd, Lexeme.attach]

/-- Letters with a number behind them are a word. -/
theorem numbered_isWord {stem : List Char} (h : stem.all isWordChar = true) (n : Nat) :
    ∀ c ∈ stem ++ Nat.toDigits 10 n, isWordChar c = true := by
  intro c hc
  rcases List.mem_append.mp hc with hc | hc
  · exact List.all_eq_true.mp h c hc
  · exact isWordChar_of_isDigit (Nat.isDigit_of_mem_toDigits (by decide) (by decide) hc)

theorem operand?_name {w : List Char} (hstart : w.head?.any Char.isDigit = false)
    (hpoint : '.' ∉ w) : Reading.operand? w = some (.name w) := by
  simp [Reading.operand?, hstart, hpoint]

theorem operand?_numbered {c : Char} {stem : List Char} (hc : c.isDigit = false)
    (hpoint : '.' ∉ c :: stem) (n : Nat) :
    Reading.operand? (c :: stem ++ Nat.toDigits 10 n) =
      some (.name (c :: stem ++ Nat.toDigits 10 n)) := by
  have hdigits : '.' ∉ Nat.toDigits 10 n := fun hd =>
    absurd (Nat.isDigit_of_mem_toDigits (by decide) (by decide) hd) (by decide)
  refine operand?_name (by simpa using hc) ?_
  rw [List.mem_append, not_or]
  exact ⟨hpoint, hdigits⟩

theorem nodeName_toList (id : NodeId) :
    (nodeName id).toList = ['n', 'o', 'd', 'e', '_'] ++ Nat.toDigits 10 id := by
  have hstem : (toString "node_").toList = ['n', 'o', 'd', 'e', '_'] := rfl
  simp [nodeName, hstem]

theorem nodeName_isWord (id : NodeId) : ∀ c ∈ (nodeName id).toList, isWordChar c = true := by
  rw [nodeName_toList]
  exact numbered_isWord (by decide) id

theorem operand?_nodeName (id : NodeId) :
    Reading.operand? (nodeName id).toList = some (.name (nodeName id).toList) := by
  rw [nodeName_toList]
  exact operand?_numbered (by decide) (by decide) id

theorem vecName_toList (n : Nat) :
    (Func.vec n).name.toList = ['v', 'e', 'c'] ++ Nat.toDigits 10 n := by
  have hstem : (toString "vec").toList = ['v', 'e', 'c'] := rfl
  simp [Func.name, hstem]

theorem funcName_isWord (f : Func) : ∀ c ∈ f.name.toList, isWordChar c = true := by
  cases f with
  | vec n =>
    rw [vecName_toList]
    exact numbered_isWord (by decide) n
  | _ => exact List.all_eq_true.mp (by decide)

theorem operand?_funcName (f : Func) :
    Reading.operand? f.name.toList = some (.name f.name.toList) := by
  cases f with
  | vec n =>
    rw [vecName_toList]
    exact operand?_numbered (by decide) (by decide) n
  | _ => rfl

theorem ofName?_name (f : Func) : Func.ofName? f.name.toList = some f := by
  cases f with
  | vec n =>
    rw [vecName_toList]
    change (Text.digits? (Nat.toDigits 10 n)).map Func.vec = _
    rw [Text.digits?_toDigits]
    rfl
  | _ => rfl

theorem toText_toList {x : Scalar} {negative : Bool} {m : Nat} {e : Int}
    (hp : Scalar.parts x = .finite negative m e) :
    (Scalar.toText x).toList =
      if negative then '-' :: Scalar.spelling m e else Scalar.spelling m e := by
  simp only [Scalar.toText, hp, String.toList_ofList]
  rfl

/-- The point of a number is there already, or it is added with a zero behind it. -/
theorem numberText_spelling {x : Scalar} {negative : Bool} {m : Nat} {e : Int}
    (hx : x.isFinite = true) (hp : Scalar.parts x = .finite negative m e) :
    ∃ whole fraction, Scalar.Recalls whole fraction m e ∧ (numberText x).toList =
      if negative then '-' :: (whole ++ '.' :: fraction) else whole ++ '.' :: fraction := by
  obtain ⟨whole, fraction, htext, hrecalls, hpadded⟩ :=
    Scalar.spelling_recalls (Scalar.eq_ofMagnitude hp).1
  obtain ⟨y, hspells⟩ := hrecalls.spells
  have hwhole : '.' ∉ whole := fun hc => absurd (hspells.whole_digits _ hc) (by decide)
  have hzero : (".0" : String).toList = ['.', '0'] := rfl
  simp only [numberText, hx, ↓reduceIte, List.contains_eq_mem, decide_eq_true_eq,
    toText_toList hp, htext]
  by_cases hf : fraction = []
  · refine ⟨whole, ['0'], hpadded hf, ?_⟩
    cases negative <;> simp [hf, hwhole, toText_toList hp, htext, hzero]
  · refine ⟨whole, fraction, hrecalls, ?_⟩
    cases negative <;> simp [hf, toText_toList hp, htext]

/-- A finite number is its sign and a word that reads back to its magnitude. -/
theorem numberText_toList {x : Scalar} {negative : Bool} {m : Nat} {e : Int}
    (hx : x.isFinite = true) (hp : Scalar.parts x = .finite negative m e) :
    ∃ w, (numberText x).toList = (if negative then '-' :: w else w) ∧ w ≠ [] ∧
      (∀ c ∈ w, isWordChar c = true) ∧
      Reading.operand? w = some (.whole (.number (.ofMagnitude false (Scalar.magnitude m e)))) := by
  obtain ⟨whole, fraction, ⟨⟨y, hspells⟩, hread⟩, htext⟩ := numberText_spelling hx hp
  refine ⟨_, htext, by simp, fun c hc => ?_, ?_⟩
  · simp only [List.mem_append, List.mem_cons] at hc
    rcases hc with hc | rfl | hc
    · exact isWordChar_of_isDigit (hspells.whole_digits c hc)
    · decide
    · exact isWordChar_of_isDigit (hspells.fraction_digits c hc)
  · obtain ⟨d, ds, hd⟩ := List.exists_cons_of_ne_nil hspells.whole_ne
    have hdigit := hspells.whole_digits d (by simp [hd])
    have hstart : (whole ++ '.' :: fraction).head?.any Char.isDigit = true := by
      simp [hd, hdigit]
    rw [Reading.operand?, if_pos hstart, Scalar.unsigned?_spelled hspells, hread]
    rfl

def Op.rank : Op → Nat
  | .mul | .div => 1
  | .add | .sub => 2

namespace Expr

/-- How loosely the outermost operator binds, zero without one. -/
def rank : Expr → Nat
  | .binary op _ _ => op.rank
  | _ => 0

/-- The tree of a number: a sign is an operator of its own. -/
def numberTree (x : Scalar) : Tree :=
  match Scalar.parts x with
  | .finite true m e => .minus (.number (.ofMagnitude false (Scalar.magnitude m e)))
  | _ => .number x

mutual

def tree : Expr → Tree
  | .node id => .name (nodeName id).toList
  | .ident name => .name name.toList
  | .sampler unit => .name (samplerName unit).toList
  | .number x => numberTree x
  | .call f args => .call f (trees args)
  | .binary op a b => .binary op a.tree b.tree
  | .bracket e => e.tree
  | .field e _ => e.tree
  | .element m _ _ => m.tree
  | .blank => .name []

def trees : List Expr → List Tree
  | [] => []
  | e :: es => e.tree :: trees es

end

mutual

/-- Whether every operand that binds more loosely than its operator is in brackets, for expressions
of nodes, finite numbers, operators and calls. -/
def Grouped : Expr → Prop
  | .node _ => True
  | .number x => x.isFinite = true
  | .call _ args => args ≠ [] ∧ AllGrouped args
  | .binary op a b => a.Grouped ∧ b.Grouped ∧ a.rank ≤ op.rank ∧ b.rank < op.rank
  | .bracket e => e.Grouped
  | .ident _ | .sampler _ | .field _ _ | .element _ _ _ | .blank => False

def AllGrouped : List Expr → Prop
  | [] => True
  | e :: es => e.Grouped ∧ AllGrouped es

end

end Expr

def Level.upTo (l : Level) : (rank : Nat) → Tree → Tree
  | 0 => l.factor
  | 1 => l.term
  | _ => l.total

namespace Reading

/-- Nothing in hand, and nothing before that would take part in an operand of a rank. -/
structure Open (r : Reading) (rank : Nat) : Prop where
  hand : r.hand = .nothing
  minus : r.level.minus = false
  product : 1 ≤ rank → r.level.product = none
  sum : 2 ≤ rank → r.level.sum = none

structure Past (r : Reading) (rank : Nat) (t : Tree) (r' : Reading) : Prop where
  outer : r'.outer = r.outer
  sum : rank < 2 → r'.level.sum = r.level.sum
  product : rank < 1 → r'.level.product = r.level.product
  hand : ∃ u, r'.hand.tree? = some u ∧ r'.level.upTo rank u = t

variable {r r' : Reading} {t : Tree}

/-- An operand is also one of any looser rank. -/
theorem Past.loosen {j k : Nat} (h : r.Past j t r') (hjk : j ≤ k) (hk : k ≤ 2) (ho : r.Open k) :
    r.Past k t r' := by
  obtain ⟨u, hu, ht⟩ := h.hand
  refine ⟨h.outer, fun hlt => h.sum (by omega), fun hlt => h.product (by omega), u, hu, ?_⟩
  have hterm : j = 0 → 1 ≤ k → r'.level.term u = r'.level.factor u := by
    intro hj hk
    rw [Level.term, h.product (by omega), ho.product hk]
    rfl
  have htotal : j < 2 → 2 ≤ k → r'.level.total u = r'.level.term u := by
    intro hj hk
    rw [Level.total, h.sum hj, ho.sum hk]
    rfl
  obtain rfl | rfl | rfl : k = 0 ∨ k = 1 ∨ k = 2 := by omega
  · obtain rfl : j = 0 := by omega
    exact ht
  · obtain rfl | rfl : j = 0 ∨ j = 1 := by omega
    · exact (hterm rfl (by omega)).trans ht
    · exact ht
  · obtain rfl | rfl | rfl : j = 0 ∨ j = 1 ∨ j = 2 := by omega
    · exact (htotal (by omega) (by omega)).trans ((hterm rfl (by omega)).trans ht)
    · exact (htotal (by omega) (by omega)).trans ht
    · exact ht

theorem Open.tighten {j k : Nat} (h : r.Open k) (hjk : j ≤ k) : r.Open j :=
  ⟨h.hand, h.minus, fun hj => h.product (hj.trans hjk), fun hj => h.sum (hj.trans hjk)⟩

theorem open_fresh (outer : List (Level × Option (Func × List Tree))) (rank : Nat) :
    Open ⟨.fresh, .nothing, outer⟩ rank :=
  ⟨rfl, rfl, fun _ => rfl, fun _ => rfl⟩

/-- An operand taken as it is. -/
theorem Open.past {h : Hand} {k : Nat} (ho : r.Open k) (ht : h.tree? = some t) :
    r.Past 0 t { r with hand := h } := by
  refine ⟨rfl, fun _ => rfl, fun _ => rfl, t, ht, ?_⟩
  simp [Level.upTo, Level.factor, ho.minus]

/-- Behind an operator there is room for an operand that binds closer. -/
theorem open_operate (r : Reading) (u : Tree) {op : Op} {k : Nat} (hk : k < op.rank) :
    (r.operate u op).Open k := by
  refine ⟨rfl, ?_, fun h₁ => ?_, fun h₂ => ?_⟩
  all_goals cases op <;> simp_all [Op.rank, operate] <;> omega

/-- Two operands with an operator between them are one of its rank. -/
theorem Past.operate {u a b : Tree} {op : Op} {k : Nat} (ha : r.Past op.rank a r')
    (hu : r'.hand.tree? = some u) {r'' : Reading} (hb : (r'.operate u op).Past k b r'')
    (hk : k < op.rank) : r.Past op.rank (.binary op a b) r'' := by
  obtain ⟨u', hu', ht⟩ := ha.hand
  rw [hu, Option.some_inj] at hu'
  subst hu'
  cases op with
  | add | sub =>
    have hb := hb.loosen (k := 1) (Nat.le_of_lt_succ hk) (by omega) (open_operate r' u (by decide))
    obtain ⟨v, hv, hvt⟩ := hb.hand
    refine ⟨hb.outer.trans ha.outer, by simp [Op.rank], by simp [Op.rank], v, hv, ?_⟩
    simp only [Level.upTo, Op.rank] at ht hvt ⊢
    rw [Level.total, hb.sum (by omega), hvt, ← ht]
    rfl
  | mul | div =>
    have : k = 0 := by
      simp only [Op.rank] at hk
      omega
    subst this
    obtain ⟨v, hv, hvt⟩ := hb.hand
    refine ⟨hb.outer.trans ha.outer, fun _ => (hb.sum (by omega)).trans (ha.sum (by decide)),
      by simp [Op.rank], v, hv, ?_⟩
    simp only [Level.upTo, Op.rank] at ht hvt ⊢
    rw [Level.term, hb.product (by omega), hvt, ← ht]
    rfl

theorem foldlM_word {w rest : List Char} (hne : w ≠ []) (hw : ∀ c ∈ w, isWordChar c = true)
    (hrest : ∀ c ∈ rest.head?, isWordChar c = false) {h : Hand} (hop : operand? w = some h)
    (hr : r.hand = .nothing) :
    (lexemes (w ++ rest)).foldlM step r = (lexemes rest).foldlM step { r with hand := h } := by
  rw [lexemes_word hne hw hrest, List.foldlM_cons]
  simp [step, hr, hop]

theorem foldlM_mark {c : Char} (hb : Text.isBlank c = false) (hw : isWordChar c = false)
    (rest : List Char) (hstep : r.step (.mark c) = some r') :
    (lexemes (c :: rest)).foldlM step r = (lexemes rest).foldlM step r' := by
  rw [lexemes_mark hb hw, List.foldlM_cons, hstep]
  rfl

theorem foldlM_operator (op : Op) (rest : List Char) (ht : r.hand.tree? = some t) :
    (lexemes (op.text.toList ++ rest)).foldlM step r =
      (lexemes rest).foldlM step (r.operate t op) := by
  have hblank : ∀ cs, lexemes (' ' :: cs) = lexemes cs := lexemes_blank (by decide)
  cases op
  all_goals
    change (lexemes (' ' :: _ :: ' ' :: rest)).foldlM step r = _
    rw [hblank, foldlM_mark (by decide) (by decide) _ (by simp [step, ht, behind]; rfl), hblank]

/-- The end of an expression in brackets. -/
theorem foldlM_leave {k : Nat} (h : r.Past k t r') (hk : k ≤ 2) (ho : r.Open 2) {next : Reading}
    (hleave : ∀ u, r'.level.total u = t → r'.leave u = some next) (rest : List Char) :
    (lexemes (')' :: rest)).foldlM step r' = (lexemes rest).foldlM step next := by
  obtain ⟨u, hu, ht⟩ := (h.loosen hk (by omega) ho).hand
  refine foldlM_mark (by decide) (by decide) _ ?_
  simp only [step, hu]
  exact hleave u ht

end Reading

open Reading

theorem foldlM_number {x : Scalar} (hx : x.isFinite = true) {rest : List Char}
    (hrest : ∀ c ∈ rest.head?, isWordChar c = false) {r : Reading} (ho : r.Open 0) :
    ∃ r', r.Past 0 (Expr.numberTree x) r' ∧
      (lexemes ((numberText x).toList ++ rest)).foldlM step r = (lexemes rest).foldlM step r' := by
  obtain ⟨negative, m, e, hp⟩ := Scalar.parts_of_isFinite hx
  obtain ⟨w, htext, hne, hw, hop⟩ := numberText_toList hx hp
  cases negative with
  | false =>
    have hx' : x = .ofMagnitude false (Scalar.magnitude m e) := (Scalar.eq_ofMagnitude hp).2
    refine ⟨{ r with hand := .whole (Expr.numberTree x) }, ho.past rfl, ?_⟩
    rw [htext, if_neg (by decide), foldlM_word hne hw hrest hop ho.hand]
    simp only [Expr.numberTree, hp, ← hx']
  | true =>
    have hsign : r.step (.mark '-') = some { r with level := { r.level with minus := true } } := by
      simp [step, ho.hand, Hand.tree?, sign, ho.minus]
    refine ⟨⟨{ r.level with minus := true },
      .whole (.number (.ofMagnitude false (Scalar.magnitude m e))), r.outer⟩, ?_, ?_⟩
    · refine ⟨rfl, fun _ => rfl, fun _ => rfl, _, rfl, ?_⟩
      simp [Expr.numberTree, hp, Level.upTo, Level.factor]
    · rw [htext, if_pos rfl, List.cons_append, foldlM_mark (by decide) (by decide) _ hsign]
      exact foldlM_word hne hw hrest hop ho.hand

theorem not_word_head {c : Char} (h : isWordChar c = false) (rest : List Char) :
    ∀ d ∈ (c :: rest).head?, isWordChar d = false := by
  intro d hd
  cases hd
  exact h

theorem rank_le (e : Expr) : e.rank ≤ 2 := by
  unfold Expr.rank
  split
  · rename_i op _ _
    cases op <;> decide
  · omega

/-- Behind the text the reader has the tree in hand, as an operand of the rank, whatever it had read
before. What follows must not go on with the last word. -/
def Reads (text : List Char) (rank : Nat) (t : Tree) : Prop :=
  ∀ rest : List Char, (∀ c ∈ rest.head?, isWordChar c = false) → ∀ r : Reading, r.Open rank →
    ∃ r', r.Past rank t r' ∧
      (lexemes (text ++ rest)).foldlM step r = (lexemes rest).foldlM step r'

namespace Reads

variable {a b : List Char} {x y t : Tree} {j k : Nat}

theorem word {h : Hand} (hne : a ≠ []) (hw : ∀ c ∈ a, isWordChar c = true)
    (hop : operand? a = some h) (ht : h.tree? = some t) : Reads a 0 t := by
  intro rest hrest r ho
  exact ⟨{ r with hand := h }, ho.past ht, foldlM_word hne hw hrest hop ho.hand⟩

/-- The left operand may bind as loosely as the operator, the right one has to bind closer. -/
theorem binary {op : Op} (ha : Reads a j x) (hb : Reads b k y) (hj : j ≤ op.rank)
    (hk : k < op.rank) : Reads (a ++ (op.text.toList ++ b)) op.rank (.binary op x y) := by
  intro rest hrest r ho
  have hspace : ∀ c ∈ (op.text.toList ++ (b ++ rest)).head?, isWordChar c = false := by
    cases op <;> simp [Op.text] <;> decide
  have htwo : op.rank ≤ 2 := by cases op <;> decide
  obtain ⟨r₁, hpast₁, hrun₁⟩ := ha _ hspace _ (ho.tighten hj)
  have hleft := hpast₁.loosen hj htwo ho
  obtain ⟨u, hu, _⟩ := hleft.hand
  obtain ⟨r₂, hpast₂, hrun₂⟩ := hb _ hrest _ (open_operate r₁ u hk)
  refine ⟨r₂, hleft.operate hu hpast₂ hk, ?_⟩
  rw [List.append_assoc, List.append_assoc, hrun₁, foldlM_operator op _ hu, hrun₂]

theorem bracket (h : Reads a k t) (hk : k ≤ 2) : Reads ('(' :: (a ++ [')'])) 0 t := by
  intro rest hrest r ho
  refine ⟨{ r with hand := .whole t }, ho.past rfl, ?_⟩
  obtain ⟨r₁, hpast, hrun⟩ := h _ (not_word_head (c := ')') (by decide) rest) _
    (open_fresh ((r.level, none) :: r.outer) k)
  have htext : '(' :: (a ++ [')']) ++ rest = '(' :: (a ++ ')' :: rest) := by simp
  rw [htext, foldlM_mark (by decide) (by decide) _ (by simp [step, enter, ho.hand]; rfl), hrun]
  refine foldlM_leave hpast hk (open_fresh _ 2) (fun u hu => ?_) rest
  simp [leave, hpast.outer, hu]

/-- A text that can be read anywhere can be read alone. -/
theorem ofLexemes? (h : Reads a k t) (hk : k ≤ 2) : Tree.ofLexemes? (lexemes a) = some t := by
  obtain ⟨r, hpast, hrun⟩ := h [] (by simp) _ (open_fresh [] k)
  obtain ⟨u, hu, ht⟩ := (hpast.loosen hk (by omega) (open_fresh [] 2)).hand
  have houter : r.outer = [] := hpast.outer
  rw [List.append_nil] at hrun
  unfold Tree.ofLexemes?
  change ((lexemes a).foldlM step ⟨.fresh, .nothing, []⟩).bind finish = _
  rw [hrun]
  change finish r = _
  simp only [Level.upTo] at ht
  simp [finish, houter, hu, ht]

end Reads

mutual

theorem reads_render : ∀ e : Expr, e.Grouped → Reads e.render.toList e.rank e.tree
  | .node id, _ => by
    have hne : (nodeName id).toList ≠ [] := by simp [nodeName_toList]
    exact .word hne (nodeName_isWord id) (operand?_nodeName id) rfl
  | .number x, hx => fun _ hrest _ ho => foldlM_number hx hrest ho
  | .call f args, ⟨hne, hg⟩ => by
    intro rest hrest r ho
    refine ⟨{ r with hand := .whole (.call f (Expr.trees args)) }, ho.past rfl, ?_⟩
    have htext : (Expr.call f args).render.toList ++ rest = f.name.toList ++
        '(' :: ((String.intercalate ", " (Expr.renderAll args)).toList ++ ')' :: rest) := by
      simp [Expr.render]
    have hname : f.name.toList ≠ [] := by
      cases f with
      | vec n => simp [vecName_toList]
      | _ => decide
    rw [htext, foldlM_word hname (funcName_isWord f) (not_word_head (by decide) _)
        (operand?_funcName f) ho.hand,
      foldlM_mark (by decide) (by decide) _ (by simp [step, enter, ofName?_name]; rfl),
      foldlM_arguments args hg hne]
    rfl
  | .binary op a b, ⟨ha, hb, hra, hrb⟩ => by
    have htext : (Expr.binary op a b).render.toList =
        a.render.toList ++ (op.text.toList ++ b.render.toList) := by
      simp [Expr.render]
    rw [htext]
    exact (reads_render a ha).binary (reads_render b hb) hra hrb
  | .bracket e, hg => by
    have htext : (Expr.bracket e).render.toList = '(' :: (e.render.toList ++ [')']) := by
      simp [Expr.render]
    rw [htext]
    exact (reads_render e hg).bracket (rank_le e)

theorem foldlM_arguments : ∀ (args : List Expr) (_ : Expr.AllGrouped args) (_ : args ≠ [])
    (rest : List Char) (l : Level) (f : Func) (done : List Tree)
    (outer : List (Level × Option (Func × List Tree))),
    (lexemes ((String.intercalate ", " (Expr.renderAll args)).toList ++ ')' :: rest)).foldlM step
        ⟨.fresh, .nothing, (l, some (f, done)) :: outer⟩ =
      (lexemes rest).foldlM step ⟨l, .whole (.call f (done ++ Expr.trees args)), outer⟩
  | [], _, hne, _, _, _, _, _ => absurd rfl hne
  | [e], ⟨he, _⟩, _, rest, l, f, done, outer => by
    obtain ⟨r₁, hpast, hrun⟩ := reads_render e he _ (not_word_head (c := ')') (by decide) rest) _
      (open_fresh ((l, some (f, done)) :: outer) e.rank)
    rw [show Expr.renderAll [e] = [e.render] from rfl, String.intercalate_singleton, hrun]
    refine foldlM_leave hpast (rank_le e) (open_fresh _ 2) (fun u hu => ?_) rest
    simp [leave, hpast.outer, hu, Expr.trees]
  | e :: e' :: es, ⟨he, hes⟩, _, rest, l, f, done, outer => by
    have hrest := foldlM_arguments (e' :: es) hes (by simp) rest l f (done ++ [e.tree]) outer
    have htext : (String.intercalate ", " (Expr.renderAll (e :: e' :: es))).toList ++ ')' :: rest =
        e.render.toList ++ ',' :: ' ' ::
          ((String.intercalate ", " (Expr.renderAll (e' :: es))).toList ++ ')' :: rest) := by
      have hcomma : (", " : String).toList = [',', ' '] := rfl
      simp [Expr.renderAll, String.intercalate_cons_cons, hcomma]
    obtain ⟨r₁, hpast, hrun⟩ := reads_render e he _ (not_word_head (c := ',') (by decide) (' ' ::
      ((String.intercalate ", " (Expr.renderAll (e' :: es))).toList ++ ')' :: rest))) _
      (open_fresh ((l, some (f, done)) :: outer) e.rank)
    obtain ⟨u, hu, ht⟩ := (hpast.loosen (rank_le e) (by omega) (open_fresh _ 2)).hand
    have hnext : r₁.step (.mark ',') =
        some ⟨.fresh, .nothing, (l, some (f, done ++ [e.tree])) :: outer⟩ := by
      simp only [Level.upTo] at ht
      simp [step, hu, behind, nextArgument, hpast.outer, ht]
    rw [htext, hrun, foldlM_mark (by decide) (by decide) _ hnext, lexemes_blank (by decide), hrest]
    simp [Expr.trees]

end

/-- The text of an expression is read as the expression. -/
theorem ofLexemes?_render {e : Expr} (hg : e.Grouped) :
    Tree.ofLexemes? (lexemes e.render.toList) = some e.tree :=
  (reads_render e hg).ofLexemes? (rank_le e)

end ShaderGraph.Glsl
