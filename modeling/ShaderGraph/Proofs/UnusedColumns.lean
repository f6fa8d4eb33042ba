import Mathlib.Data.List.Forall2
import ShaderGraph.Proofs.Transcript

namespace ShaderGraph

section Matched

variable {ε δ α β γ σ τ : Type}

/-- Two results are the same error, or both are there and related. -/
inductive Matched (R : α → β → Prop) : Except ε α → Except ε β → Prop where
  | ok {a : α} {b : β} (h : R a b) : Matched R (.ok a) (.ok b)
  | error (e : ε) : Matched R (.error e) (.error e)

theorem Matched.refl {R : α → α → Prop} (hR : ∀ a, R a a) (x : Except ε α) : Matched R x x := by
  cases x with
  | ok a => exact .ok (hR a)
  | error e => exact .error e

theorem Matched.map_eq {R : α → α → Prop} {x y : Except ε α} (h : Matched R x y) {f : α → β}
    (hf : ∀ a b, R a b → f a = f b) : x.map f = y.map f := by
  cases h with
  | ok h => exact congrArg Except.ok (hf _ _ h)
  | error e => rfl

theorem Matched.and_eq {R : α → β → Prop} {x : Except ε α} {y : Except ε β} (h : Matched R x y) :
    Matched (fun a b => R a b ∧ x = .ok a ∧ y = .ok b) x y := by
  cases h with
  | ok h => exact .ok ⟨h, rfl, rfl⟩
  | error e => exact .error e

theorem Matched.mono {R S : α → β → Prop} {x : Except ε α} {y : Except ε β} (h : Matched R x y)
    (hRS : ∀ a b, R a b → S a b) : Matched S x y := by
  cases h with
  | ok h => exact .ok (hRS _ _ h)
  | error e => exact .error e

theorem Matched.bind {R : α → β → Prop} {S : σ → τ → Prop} {x : Except ε α} {y : Except ε β}
    {f : α → Except ε σ} {g : β → Except ε τ} (h : Matched R x y)
    (hfg : ∀ a b, R a b → Matched S (f a) (g b)) : Matched S (x >>= f) (y >>= g) := by
  cases h with
  | ok h => exact hfg _ _ h
  | error e => exact .error e

theorem Matched.mapError {R : α → β → Prop} {x : Except ε α} {y : Except ε β} (h : Matched R x y)
    (f : ε → δ) : Matched R (x.mapError f) (y.mapError f) := by
  cases h with
  | ok h => exact .ok h
  | error e => exact .error (f e)

theorem Matched.map {R : α → β → Prop} {S : σ → τ → Prop} {x : Except ε α} {y : Except ε β}
    {f : α → σ} {g : β → τ} (h : Matched R x y) (hfg : ∀ a b, R a b → S (f a) (g b)) :
    Matched S (x.map f) (y.map g) := by
  cases h with
  | ok h => exact .ok (hfg _ _ h)
  | error e => exact .error e

/-- Results that go through one map are related as what it gives. -/
theorem Matched.of_map {R : β → γ → Prop} {f : α → β} {g : σ → γ} {x : Except ε α} {y : Except ε σ}
    (h : Matched R (x.map f) (y.map g)) : Matched (fun a b => R (f a) (g b)) x y := by
  cases x with
  | ok a =>
    cases y with
    | ok b =>
      cases h with
      | ok h => exact .ok h
    | error e => cases h
  | error e =>
    cases y with
    | ok b => cases h
    | error d =>
      cases h
      exact .error e

/-- Both go over their elements in step. -/
theorem mapM_matched {R : Nat → β → β → Prop} {f : α → Except ε β} {xs ys : List α}
    (hlength : xs.length = ys.length)
    (h : ∀ i (hx : i < xs.length) (hy : i < ys.length), Matched (R i) (f xs[i]) (f ys[i])) :
    Matched (fun as bs => as.length = bs.length ∧
      ∀ i (ha : i < as.length) (hb : i < bs.length), R i as[i] bs[i]) (xs.mapM f) (ys.mapM f) := by
  induction xs generalizing ys R with
  | nil =>
    obtain rfl := List.length_eq_zero_iff.mp hlength.symm
    exact .ok ⟨rfl, fun i ha => absurd ha (Nat.not_lt_zero i)⟩
  | cons x xs ih =>
    cases ys with
    | nil => cases hlength
    | cons y ys =>
      rw [List.mapM_cons, List.mapM_cons]
      refine (h 0 (by simp) (by simp)).bind fun a b hab => ?_
      refine (ih (R := fun i => R (i + 1)) (Nat.succ.inj hlength) fun i hx hy =>
        h (i + 1) (by simpa using hx) (by simpa using hy)).bind fun as bs hrest => ?_
      refine .ok ⟨by simp [hrest.1], fun i ha hb => ?_⟩
      cases i with
      | zero => exact hab
      | succ i => exact hrest.2 i (by simpa using ha) (by simpa using hb)

theorem foldlM_matched {R : σ → τ → Prop} {S : α → β → Prop} {f : σ → α → Except ε σ}
    {g : τ → β → Except ε τ} (hfg : ∀ s t a b, R s t → S a b → Matched R (f s a) (g t b))
    {xs : List α} {ys : List β} (hxs : List.Forall₂ S xs ys) {s : σ} {t : τ} (hst : R s t) :
    Matched R (xs.foldlM f s) (ys.foldlM g t) := by
  induction hxs generalizing s t with
  | nil => exact .ok hst
  | cons hab _ ih =>
    rw [List.foldlM_cons, List.foldlM_cons]
    exact (hfg s t _ _ hst hab).bind fun _ _ => ih

end Matched

namespace Text

/-- Blanks around a text are trimmed. -/
theorem trim_blanks {before after cs : List Char} {c : Char}
    (hblank : ∀ d ∈ before ++ after, isBlank d = true) (hfirst : isBlank c = false)
    (hlast : ∀ d ∈ (c :: cs).getLast?, isBlank d = false) :
    trim (before ++ (c :: cs) ++ after) = c :: cs := by
  have htrim : trim (c :: cs) = c :: cs := trim_eq (by simpa using hfirst) hlast
  have hbefore : ∀ d ∈ before, isBlank d = true := fun d hd => hblank d (by simp [hd])
  have hafter : ∀ d ∈ after.reverse, isBlank d = true := fun d hd =>
    hblank d (by simp [List.mem_reverse.mp hd])
  rw [trim, List.dropWhile_cons_of_neg (by simp [hfirst])] at htrim
  rw [trim, List.append_assoc, List.dropWhile_append_of_pos hbefore, List.cons_append,
    List.dropWhile_cons_of_neg (by simp [hfirst]), ← List.cons_append, List.reverse_append,
    List.dropWhile_append_of_pos hafter, htrim]

/-- A text that starts with something is trimmed at its end only. -/
theorem trim_cons {c : Char} (hc : isBlank c = false) (cs : List Char) :
    ∃ ds, trim (c :: cs) = c :: ds := by
  rw [trim, List.dropWhile_cons_of_neg (by simp [hc]), List.reverse_cons,
    List.dropWhile_append]
  split
  · exact ⟨[], by simp [hc]⟩
  · exact ⟨_, by rw [List.reverse_append]; rfl⟩

end Text

namespace SavedGraph

def uses (kind : Kind) : Nat → Bool
  | 0 => true
  | 1 => kind.isLiteral
  | 2 | 3 | 4 | 5 | 6 | 8 => false
  | 7 => kind.isVariadic
  | i + 9 =>
    if i < 16 then
      if kind.isLiteral then i < kind.naturalShape.size else kind = .textureSample && i = 0
    else true

/-- Whether a field reads as what its column is for, which is checked where it is not used as well.
Two columns are not read at all. -/
def fills (i : Nat) (field : List Char) : Bool :=
  match i with
  | 1 => (Text.nat? (Nat.pow 2 8) (Text.trim field)).isSome
  | 2 | 3 | 4 | 5 => (Text.int64? (Text.trim field)).isSome
  | 7 => (Text.nat? (Nat.pow 2 64) (Text.trim field)).isSome
  | 0 | 6 | 8 => true
  | _ + 9 => (Scalar.ofChars? (Text.trim field)).isSome

def Exchangeable (kind : Kind) (i : Nat) (a b : List Char) : Prop :=
  a = b ∨ uses kind i = false ∧ fills i a = true ∧ fills i b = true

instance (kind : Kind) (i : Nat) (a b : List Char) : Decidable (Exchangeable kind i a b) :=
  inferInstanceAs (Decidable (_ ∨ _))

structure SameUse (r s : NodeRecord) : Prop where
  kind : r.kind = s.kind
  property : r.kind.isLiteral = true → r.property = s.property
  limit : r.kind.isVariadic = true → r.limit = s.limit
  literal : r.kind.isLiteral = true →
    r.data.take r.kind.naturalShape.size = s.data.take r.kind.naturalShape.size
  threshold : r.kind = .textureSample → r.data.headD .zero = s.data.headD .zero
  position : r.position = s.position

theorem SameUse.refl (r : NodeRecord) : SameUse r r :=
  ⟨rfl, fun _ => rfl, fun _ => rfl, fun _ => rfl, fun _ => rfl, rfl⟩

variable {r s : NodeRecord}

theorem SameUse.init (h : SameUse r s) : r.init = s.init := by
  unfold NodeRecord.init
  rw [← h.kind]
  split
  · rename_i hk
    rw [h.literal hk]
  · by_cases hv : r.kind.isVariadic = true
    · rw [h.limit hv]
    · simp [hv]

theorem SameUse.parameters (h : SameUse r s) (id : NodeId) :
    r.parameters id = s.parameters id := by
  unfold NodeRecord.parameters
  rw [← h.kind]
  congr 1
  · split
    · rename_i hk
      rw [h.property hk]
    · rfl
  · by_cases hk : r.kind = .textureSample
    · rw [h.threshold hk]
    · simp [hk]

theorem SameUse.addNode_eq (h : SameUse r s) (g : Graph) (handle : Handle) :
    addNode g r handle = addNode g s handle := by
  have hplace : placeNode g r handle = placeNode g s handle := by
    by_cases hsink : r.kind.isSink = true
    · rw [placeNode_sink hsink .start, placeNode_sink (h.kind ▸ hsink) .start]
      simp only [Numbering.idOf, h.kind]
    · rw [placeNode_new hsink, placeNode_new (h.kind ▸ hsink), h.kind, h.init]
      simp only [setParameters_eq _ _ _ handle, h.parameters]
  unfold addNode
  rw [hplace, h.position]

theorem readField_matched {α : Type} (column : Column) (read : List Char → Option α) (used : Bool)
    {a b : List Char} (h : a = b ∨ used = false ∧ (read (Text.trim a)).isSome = true ∧
      (read (Text.trim b)).isSome = true) :
    Matched (fun x y => used = true → x = y) (readField column read a)
      (readField column read b) := by
  rcases h with rfl | ⟨hused, ha, hb⟩
  · exact .refl (fun _ _ => rfl) _
  · obtain ⟨x, hx⟩ := Option.isSome_iff_exists.mp ha
    obtain ⟨y, hy⟩ := Option.isSome_iff_exists.mp hb
    rw [readField, readField, hx, hy]
    exact .ok fun h => by simp [hused] at h

theorem readNode_eq {line : List Char} {fields : List (List Char)} {kind : Kind}
    (hfields : splitFields line = .ok fields) (hkind : readKind (fields.getD 0 []) = .ok kind) :
    readNode line = (do
      let property ← readByte .property (fields.getD 1 [])
      let _ ← ((fields.drop 2).take 4).mapM (readField .input Text.int64?)
      let limit ← readSize .limit (fields.getD 7 [])
      let data ← ((fields.drop 9).take 16).mapM (readScalar .data)
      let x ← readScalar .x (fields.getD 25 [])
      let y ← readScalar .y (fields.getD 26 [])
      return ⟨kind, property ≠ 0, limit, data, (x, y)⟩) := by
  rw [readNode, hfields]
  change (readKind (fields.getD 0 []) >>= _) = _
  rw [hkind]
  rfl

/-- The data that a literal is made of. -/
theorem take_eq_of_uses {kind : Kind} (hk : kind.isLiteral = true) {d d' : List Scalar}
    (hlength : d.length = d'.length)
    (h : ∀ i (hi : i < d.length) (hi' : i < d'.length), uses kind (i + 9) = true → d[i] = d'[i]) :
    d.take kind.naturalShape.size = d'.take kind.naturalShape.size := by
  apply List.ext_getElem
  · simp [hlength]
  · intro i hi hi'
    rw [List.getElem_take, List.getElem_take]
    rw [List.length_take] at hi
    have hle : kind.naturalShape.size ≤ 16 := by cases kind.naturalShape <;> decide
    refine h i (by omega) (by omega) ?_
    rw [uses, if_pos (by omega), if_pos hk]
    exact decide_eq_true (by omega)

/-- The threshold of a texture sample. -/
theorem headD_eq_of_uses {d d' : List Scalar} (hlength : d.length = d'.length)
    (h : ∀ i (hi : i < d.length) (hi' : i < d'.length),
      uses .textureSample (i + 9) = true → d[i] = d'[i]) : d.headD .zero = d'.headD .zero := by
  cases d with
  | nil =>
    obtain rfl := List.length_eq_zero_iff.mp hlength.symm
    rfl
  | cons x d =>
    cases d' with
    | nil => cases hlength
    | cons y d' => exact h 0 (by simp) (by simp) rfl

/-- A record is read alike when its fields may be exchanged; the first bad field is one that both
have. -/
theorem readNode_matched {a b : List Char} {fields fields' : List (List Char)} {kind : Kind}
    (hfields : splitFields a = .ok fields) (hfields' : splitFields b = .ok fields')
    (hlength : fields.length = fieldCount) (hlength' : fields'.length = fieldCount)
    (hkind : readKind (fields.getD 0 []) = .ok kind)
    (hkind' : readKind (fields'.getD 0 []) = .ok kind)
    (h : ∀ i, 0 < i → i < fieldCount →
      Exchangeable kind i (fields.getD i []) (fields'.getD i [])) :
    Matched SameUse (readNode a) (readNode b) := by
  have hcount : fieldCount = 27 := rfl
  have hplace (xs : List (List Char)) (i k n : Nat) (hi : i < ((xs.drop k).take n).length) :
      ((xs.drop k).take n)[i] = xs.getD (k + i) [] := by
    simp only [List.length_take, List.length_drop] at hi
    rw [List.getElem_take, List.getElem_drop, List.getD_eq_getElem _ _ (by omega)]
  rw [readNode_eq hfields hkind, readNode_eq hfields' hkind']
  have hproperty := readField_matched .property _ _ (h 1 (by decide) (by decide))
  have hlimit := readField_matched .limit _ _ (h 7 (by decide) (by decide))
  have hx := readField_matched .x Scalar.ofChars? _ (h 25 (by decide) (by decide))
  have hy := readField_matched .y Scalar.ofChars? _ (h 26 (by decide) (by decide))
  have hinputs : Matched (fun _ _ => True)
      (((fields.drop 2).take 4).mapM (readField .input Text.int64?))
      (((fields'.drop 2).take 4).mapM (readField .input Text.int64?)) := by
    refine (mapM_matched (R := fun _ _ _ => True) (by simp [hlength, hlength'])
      fun i hi hi' => ?_).mono fun _ _ _ => trivial
    rw [hplace _ _ _ _ hi, hplace _ _ _ _ hi']
    have hlt : i < 4 := by
      simp only [List.length_take] at hi
      omega
    have hfield := h (2 + i) (by omega) (by omega)
    refine (readField_matched _ _ false ?_).mono fun _ _ _ => trivial
    match i, hlt with
    | 0, _ | 1, _ | 2, _ | 3, _ => exact hfield
  have hdata : Matched (fun as bs => as.length = bs.length ∧ ∀ i (ha : i < as.length)
      (hb : i < bs.length), uses kind (i + 9) = true → as[i] = bs[i])
      (((fields.drop 9).take 16).mapM (readScalar .data))
      (((fields'.drop 9).take 16).mapM (readScalar .data)) := by
    refine mapM_matched (R := fun i x y => uses kind (i + 9) = true → x = y)
      (by simp [hlength, hlength']) fun i hi hi' => ?_
    rw [hplace _ _ _ _ hi, hplace _ _ _ _ hi', Nat.add_comm 9 i]
    simp only [List.length_take, List.length_drop] at hi
    exact readField_matched _ _ _ (h (i + 9) (by omega) (by omega))
  refine hproperty.bind fun p p' hp => hinputs.bind fun _ _ _ => hlimit.bind fun l l' hl =>
    hdata.bind fun d d' hd => hx.bind fun x x' hx => hy.bind fun y y' hy => .ok ?_
  exact {
    kind := rfl
    property := fun hk => by simp only [hp hk]
    limit := fun hk => hl hk
    literal := fun hk => take_eq_of_uses hk hd.1 hd.2
    threshold := by
      rintro rfl
      exact headD_eq_of_uses hd.1 hd.2
    position := by rw [hx rfl, hy rfl] }

/-- A line with a record: its fields, each of them closed by a comma, and blanks around them. -/
def recordLine (before : List Char) (fields : List (List Char)) (after : List Char) : List Char :=
  before ++ fields.flatMap (· ++ [',']) ++ after

/-- Lines that are the same, or node records that differ in fields that may be exchanged. -/
inductive SameLine : List Char → List Char → Prop where
  | same (line : List Char) : SameLine line line
  | record {before after : List Char} {fields fields' : List (List Char)} {kind : Kind}
      (hblank : ∀ c ∈ before ++ after, Text.isBlank c = true)
      (hlength : fields.length = fieldCount) (hlength' : fields'.length = fieldCount)
      (hcomma : ∀ field ∈ fields ++ fields', ',' ∉ field)
      (hkind : readKind (fields.getD 0 []) = .ok kind)
      (hfields : ∀ i < fieldCount, Exchangeable kind i (fields.getD i []) (fields'.getD i [])) :
    SameLine (recordLine before fields after) (recordLine before fields' after)

theorem readKind_of_trim {a b : List Char} {kind : Kind} (htrim : Text.trim a = Text.trim b)
    (h : readKind a = .ok kind) : readKind b = .ok kind := by
  obtain ⟨code, hcode, h⟩ := except_bind_eq_ok.mp h
  refine except_bind_eq_ok.mpr ⟨code, ?_, h⟩
  unfold readField at hcode ⊢
  rw [← htrim]
  split at hcode
  · cases hcode
    rfl
  · cases hcode

/-- A field that reads as a kind starts, past its blanks, with no question mark. -/
theorem start_of_readKind {field : List Char} {kind : Kind} (h : readKind field = .ok kind) :
    ∃ c cs, field.dropWhile Text.isBlank = c :: cs ∧ Text.isBlank c = false ∧ c ≠ '?' ∧
      readKind (c :: cs) = .ok kind := by
  obtain ⟨code, hcode, _⟩ := except_bind_eq_ok.mp h
  have hnat : Text.nat? (Nat.pow 2 16) (Text.trim field) = some code := by
    unfold readField at hcode
    split at hcode
    · cases hcode
      assumption
    · cases hcode
  cases hdrop : field.dropWhile Text.isBlank with
  | nil =>
    rw [Text.trim, hdrop] at hnat
    cases hnat
  | cons c cs =>
    have hc : Text.isBlank c = false := by
      have hhead := List.head?_dropWhile_not Text.isBlank field
      rw [hdrop] at hhead
      simpa using hhead
    have htrim : Text.trim field = Text.trim (c :: cs) := by
      rw [Text.trim, hdrop, Text.trim, List.dropWhile_cons_of_neg (by simp [hc])]
    refine ⟨c, cs, rfl, hc, ?_, readKind_of_trim htrim h⟩
    rintro rfl
    obtain ⟨ds, hds⟩ := Text.trim_cons hc cs
    rw [htrim, hds] at hnat
    simp [Text.nat?, Text.digits?] at hnat

/-- The fields of a record on a line, of which the first may have lost blanks, and how the line
starts. -/
theorem splitFields_recordLine {before after : List Char} {fields : List (List Char)} {kind : Kind}
    (hblank : ∀ c ∈ before ++ after, Text.isBlank c = true) (hlength : fields.length = fieldCount)
    (hcomma : ∀ field ∈ fields, ',' ∉ field) (hkind : readKind (fields.getD 0 []) = .ok kind) :
    ∃ read, splitFields (Text.trim (recordLine before fields after)) = .ok read ∧
      read.length = fieldCount ∧ readKind (read.getD 0 []) = .ok kind ∧
      (∀ i, 0 < i → read.getD i [] = fields.getD i []) ∧
      ∃ c cs, Text.trim (recordLine before fields after) = c :: cs ∧ c ≠ '?' := by
  cases fields with
  | nil => cases hlength
  | cons first rest =>
    obtain ⟨c, cs, hdrop, hc, hmark, hkind⟩ :=
      start_of_readKind (show readKind first = .ok kind from hkind)
    have hfirst : first = first.takeWhile Text.isBlank ++ c :: cs := by
      rw [← hdrop, List.takeWhile_append_dropWhile]
    have hline : recordLine before (first :: rest) after =
        (before ++ first.takeWhile Text.isBlank) ++
          ((c :: cs) :: rest).flatMap (· ++ [',']) ++ after := by
      rw [recordLine, List.flatMap_cons, List.flatMap_cons]
      nth_rewrite 1 [hfirst]
      simp only [List.append_assoc]
    have hlast : (((c :: cs) :: rest).flatMap (· ++ [','])).getLast? = some ',' := by
      rcases List.eq_nil_or_concat ((c :: cs) :: rest) with he | ⟨init, last, he⟩
      · cases he
      · rw [he]
        simp
    have htrim : Text.trim (recordLine before (first :: rest) after) =
        ((c :: cs) :: rest).flatMap (· ++ [',']) := by
      rw [hline]
      refine Text.trim_blanks ?_ hc ?_
      · intro d hd
        simp only [List.mem_append] at hd
        rcases hd with (hd | hd) | hd
        · exact hblank d (by simp [hd])
        · exact List.mem_takeWhile_imp hd
        · exact hblank d (by simp [hd])
      · intro d hd
        rw [show c :: _ = ((c :: cs) :: rest).flatMap (· ++ [',']) from rfl, hlast,
          Option.mem_some_iff] at hd
        exact hd ▸ rfl
    refine ⟨(c :: cs) :: rest, ?_, hlength, hkind, ?_, c, _, htrim, hmark⟩
    · rw [htrim]
      refine splitFields_joined hlength fun field hfield => ?_
      rcases List.mem_cons.mp hfield with rfl | hfield
      · intro hm
        refine hcomma first List.mem_cons_self ?_
        rw [hfirst]
        exact List.mem_append_right _ hm
      · exact hcomma field (List.mem_cons_of_mem _ hfield)
    · intro i hi
      cases i with
      | zero => cases hi
      | succ i => rfl

theorem SameLine.readNode {a b : List Char} (h : SameLine a b) (hne : a ≠ b) :
    (∃ c cs, Text.trim a = c :: cs ∧ c ≠ '?') ∧ (∃ c cs, Text.trim b = c :: cs ∧ c ≠ '?') ∧
      Matched SameUse (readNode (Text.trim a)) (readNode (Text.trim b)) := by
  cases h with
  | same => exact absurd rfl hne
  | record hblank hlength hlength' hcomma hkind hfields =>
    rename_i before after fields fields' kind
    have hkind' : readKind (fields'.getD 0 []) = .ok kind := by
      rcases hfields 0 (by decide) with hsame | ⟨hused, _⟩
      · rwa [← hsame]
      · cases hused
    obtain ⟨read, hread, hcount, hcode, hrest, hstart⟩ := splitFields_recordLine hblank hlength
      (fun field hf => hcomma field (List.mem_append_left _ hf)) hkind
    obtain ⟨read', hread', hcount', hcode', hrest', hstart'⟩ :=
      splitFields_recordLine hblank hlength'
        (fun field hf => hcomma field (List.mem_append_right _ hf)) hkind'
    refine ⟨hstart, hstart', readNode_matched hread hread' hcount hcount' hcode hcode' ?_⟩
    intro i hpos hi
    rw [hrest i hpos, hrest' i hpos]
    exact hfields i hi

/-- Well-formed graphs that differ in handles and in what passes write. -/
structure Twins (g h : Graph) : Prop where
  left : g.WellFormed
  right : h.WellFormed
  outline : g.outline = h.outline

structure SettledTwins (g h : Graph) : Prop extends Twins g h where
  evaluated : g.Evaluated
  evaluated' : h.Evaluated

theorem SettledTwins.unnamed_eq {g h : Graph} (t : SettledTwins g h) : g.unnamed = h.unnamed :=
  t.evaluated.unnamed_eq t.left t.evaluated' t.outline

theorem Twins.apply {g h : Graph} (t : Twins g h) (c : Command) (handle handle' : Handle)
    (hanswer : g.answer c handle = h.answer c handle') :
    Matched (fun p q => p.1 = q.1 ∧ Twins p.2 q.2) (g.apply c handle) (h.apply c handle') := by
  obtain ⟨e, hg, hh⟩ | ⟨⟨o, g'⟩, ⟨o', h'⟩, hg, hh, heq⟩ := except_map_eq_map.mp hanswer
  · rw [hg, hh]
    exact .error e
  · obtain ⟨ho, houtline⟩ := Prod.mk.inj heq
    rw [hg, hh]
    exact .ok ⟨ho, t.left.apply hg, t.right.apply hh, houtline⟩

theorem Twins.furnish {g h : Graph} (t : Twins g h) {c : Command} (hc : c.furnishes = true)
    (handle handle' : Handle) :
    Matched (fun p q => p.1 = q.1 ∧ Twins p.2 q.2) (g.apply c handle) (h.apply c handle') :=
  t.apply c handle handle' (by rw [Graph.answer_outline hc, Graph.answer_outline hc h, t.outline])

theorem Twins.carry {g h : Graph} (t : Twins g h) {cs : List Command}
    (hcs : ∀ c ∈ cs, c.furnishes = true) (handle handle' : Handle) :
    Matched Twins (g.carry handle cs) (h.carry handle' cs) := by
  induction cs generalizing g h with
  | nil => exact .ok t
  | cons c cs ih =>
    rw [Graph.carry_cons, Graph.carry_cons]
    have hfirst := t.furnish (hcs c List.mem_cons_self) handle handle'
    exact (hfirst.map fun _ _ h => h.2).bind fun _ _ t' =>
      ih t' fun d hd => hcs d (List.mem_cons_of_mem c hd)

theorem Twins.addNode {g h : Graph} (t : Twins g h) {next : NodeId}
    (hpool : g.nodeIds = ⟨Graph.maxNodes, next, []⟩) {r s : NodeRecord} (hrs : SameUse r s)
    (handle handle' : Handle) :
    Matched (fun p q => p.1 = q.1 ∧ Twins p.2 q.2) (addNode g r handle) (addNode h s handle') := by
  have hpool' : h.nodeIds = ⟨Graph.maxNodes, next, []⟩ := by
    rw [← hpool, ← Graph.outline_nodeIds g, t.outline, Graph.outline_nodeIds]
  rw [← hrs.addNode_eq, SavedGraph.addNode_eq (t := ⟨[], next⟩) hpool,
    SavedGraph.addNode_eq (t := ⟨[], next⟩) hpool']
  exact (t.carry (furnishes_commands r _) handle handle').map fun _ _ t' => ⟨rfl, t'⟩

theorem SettledTwins.connect {g h : Graph} (t : SettledTwins g h) (source target : NodeId)
    (slot : Option Nat) :
    Matched (fun p q => Twins p.2 q.2) (g.connect source target slot)
      (h.connect source target slot) := by
  have happly := t.toTwins.apply (.connect source target slot) ⟨0⟩ ⟨0⟩
    (by rw [Graph.answer_connect, Graph.answer_connect h, t.unnamed_eq])
  exact (Matched.of_map happly).mono fun _ _ h => h.2

theorem Twins.evaluated {g h : Graph} (t : Twins g h) :
    Matched SettledTwins (evaluated g) (evaluated h) := by
  obtain ⟨g', report, hr, he⟩ := Graph.recompute_topological t.left
  obtain ⟨h', report', hr', he'⟩ := Graph.recompute_topological t.right
  simp only [SavedGraph.evaluated, hr, hr']
  refine .ok ⟨⟨t.left.recompute hr, t.right.recompute hr', ?_⟩, he, he'⟩
  rw [Graph.outline_of_core (Graph.core_recompute hr), t.outline,
    Graph.outline_of_core (Graph.core_recompute hr')]

/-- What two runs have come to: graphs that will be the same up to handles after a pass. -/
structure Paired (l m : Loading) : Prop where
  twins : Twins l.graph m.graph
  settled : l.linking = true → SettledTwins l.graph m.graph
  pool : l.linking = false → ∃ next, l.graph.nodeIds = ⟨Graph.maxNodes, next, []⟩
  records : l.records = m.records
  linking : l.linking = m.linking

variable {l m : Loading} {handles handles' : Nat → Handle}

/-- The graph as it is when links are made. -/
theorem Paired.pass (p : Paired l m) :
    Matched SettledTwins (if l.linking then pure l.graph else evaluated l.graph)
      (if m.linking then pure m.graph else evaluated m.graph) := by
  rw [← p.linking]
  split
  · rename_i hl
    exact .ok (p.settled hl)
  · exact p.twins.evaluated

theorem addLine_edge {line rest : List Char} {number : Nat} (hline : Text.trim line = '?' :: rest) :
    l.addLine handles (line, number) = (do
      let g ← (if l.linking then pure l.graph else evaluated l.graph)
      let r ← (readEdge l.records.length rest).mapError (.record number)
      let (_, g) ← (g.connect (l.records.getD r.source 0) (l.records.getD r.target 0)
        r.slot).mapError (.graph number)
      let g ← evaluated g
      return { l with graph := g, linking := true }) := by
  simp only [Loading.addLine, hline]

theorem addLine_record {line cs : List Char} {c : Char} {number : Nat}
    (hline : Text.trim line = c :: cs) (hmark : c ≠ '?') :
    l.addLine handles (line, number) =
      if l.linking then .error (.record number .nodeAfterEdges)
      else (readNode (Text.trim line)).mapError (.record number) >>= fun r =>
        (addNode l.graph r (handles l.graph.nodes.length)).mapError (.graph number) >>= fun p =>
          .ok { l with graph := p.2, records := l.records ++ [p.1] } := by
  unfold Loading.addLine
  simp only
  split
  · rename_i h
    rw [hline] at h
    cases h
  · rename_i h
    rw [hline] at h
    cases h
    exact absurd rfl hmark
  · rfl

theorem Paired.edge (p : Paired l m) {line rest : List Char} {number : Nat}
    (hline : Text.trim line = '?' :: rest) :
    Matched Paired (l.addLine handles (line, number)) (m.addLine handles' (line, number)) := by
  rw [addLine_edge hline, addLine_edge hline, ← p.records]
  refine p.pass.bind fun g h t => ?_
  refine (Matched.refl (R := Eq) (fun _ => rfl) _).bind fun r r' hr => ?_
  subst hr
  refine ((t.connect _ _ _).mapError _).bind fun _ _ t' => ?_
  refine t'.evaluated.bind fun g' h' t'' => .ok ?_
  exact ⟨t''.toTwins, fun _ => t'', by simp, rfl, rfl⟩

theorem Paired.record (p : Paired l m) {a b cs ds : List Char} {c d : Char} {number : Nat}
    (ha : Text.trim a = c :: cs) (hc : c ≠ '?') (hb : Text.trim b = d :: ds) (hd : d ≠ '?')
    (hread : Matched SameUse (readNode (Text.trim a)) (readNode (Text.trim b))) :
    Matched Paired (l.addLine handles (a, number)) (m.addLine handles' (b, number)) := by
  rw [addLine_record ha hc, addLine_record hb hd, ← p.linking]
  split
  · exact .error _
  · rename_i hl
    obtain ⟨next, hpool⟩ := p.pool (Bool.eq_false_of_not_eq_true hl)
    refine (hread.mapError _).bind fun r s hrs => ?_
    refine ((p.twins.addNode hpool hrs _ _).and_eq.mapError _).bind ?_
    rintro q q' ⟨⟨hid, t⟩, hq, -⟩
    have hnext := addNode_pool (t := ⟨[], next⟩) hpool hq
    exact .ok ⟨t, fun h => absurd h hl, fun _ => ⟨_, hnext⟩, by rw [p.records, hid], rfl⟩

theorem Paired.addLine (p : Paired l m) {a b : List Char} (h : SameLine a b) (number : Nat) :
    Matched Paired (l.addLine handles (a, number)) (m.addLine handles' (b, number)) := by
  by_cases hab : a = b
  · subst hab
    cases hline : Text.trim a with
    | nil =>
      simp only [Loading.addLine, hline]
      exact .ok p
    | cons c cs =>
      by_cases hmark : c = '?'
      · exact p.edge (hmark ▸ hline)
      · exact p.record hline hmark hline hmark (.refl SameUse.refl _)
  · obtain ⟨⟨c, cs, ha, hc⟩, ⟨d, ds, hb, hd⟩, hread⟩ := h.readNode hab
    exact p.record ha hc hb hd hread

/-- Two texts whose lines are the same but for fields that may be exchanged. -/
def SameText (a b : String) : Prop :=
  List.Forall₂ SameLine (Text.splitOn '\n' a.toList) (Text.splitOn '\n' b.toList)

theorem numbered_lines {xs ys : List (List Char)} (h : List.Forall₂ SameLine xs ys) (k : Nat) :
    List.Forall₂ (fun x y : List Char × Nat => SameLine x.1 y.1 ∧ x.2 = y.2) (xs.zipIdx k)
      (ys.zipIdx k) := by
  induction h generalizing k with
  | nil => exact .nil
  | cons hab _ ih => exact .cons ⟨hab, rfl⟩ (ih (k + 1))

/-- Columns that are not used have no influence on loading: the graph is the same up to handles, or
the same error is reported at the same line. -/
theorem load_sameText {a b : String} (h : SameText a b) (handles handles' : Nat → Handle) :
    (load handles a).map Graph.unnamed = (load handles' b).map Graph.unnamed := by
  have hstart : Paired ⟨Graph.new (handles 0) (handles 1), [], false⟩
      ⟨Graph.new (handles' 0) (handles' 1), [], false⟩ :=
    ⟨⟨Graph.wellFormed_new _ _, Graph.wellFormed_new _ _, rfl⟩, by simp, fun _ => ⟨_, rfl⟩, rfl,
      rfl⟩
  have hstep : ∀ (l m : Loading) (x y : List Char × Nat), Paired l m →
      SameLine x.1 y.1 ∧ x.2 = y.2 →
      Matched Paired (l.addLine handles x) (m.addLine handles' y) := by
    rintro l m ⟨a, i⟩ ⟨b, j⟩ p ⟨hline, hnumber⟩
    obtain rfl : i = j := hnumber
    exact p.addLine hline i
  have hlines := foldlM_matched hstep (numbered_lines h 1) hstart
  exact (hlines.bind fun _ _ p => p.pass).map_eq fun _ _ t => t.unnamed_eq

/-- A uniform, a texture sample that clips, and a sum of at most two. -/
def plainRecords : List (List String) :=
  [["10", "1", "-1", "-1", "-1", "-1", "0", "0", "1", "0.5", "0", "0", "0", "0", "0", "0", "0", "0",
      "0", "0", "0", "0", "0", "0", "0", "7", "0"],
    ["80", "0", "0", "-1", "-1", "-1", "1", "3", "4", "0.25", "0", "0", "0", "0", "0", "0", "0",
      "0", "0", "0", "0", "0", "0", "0", "0", "7", "0"],
    ["20", "0", "1", "-1", "-1", "-1", "1", "2", "4", "0", "0", "0", "0", "0", "0", "0", "0", "0",
      "0", "0", "0", "0", "0", "0", "0", "7", "0"]]

/-- The same with something else in every column that is not used. -/
def scribbledRecords : List (List String) :=
  [["10", "1", "5", "+6", " 7 ", "-8", "many", "44", "?", "0.5", "1", "2", "3", "4", "5", "6", "7",
      "8", "9", "nan", "inf", "-0", "1e3", "14", "15", "7", "0"],
    ["80", "255", "9", "9", "9", "9", "", "0", "none", "0.25", "1", "2", "3", "4", "5", "6", "7",
      "8", "9", "10", "11", "12", "13", "14", "15", "7", "0"],
    ["20", "1", "2", "3", "4", "5", "6", "2", "8", "1", "1", "2", "3", "4", "5", "6", "7", "8", "9",
      "10", "11", "12", "13", "14", "15", "7", "0"]]

def lineOf (fields : List String) : List Char := recordLine [] (fields.map String.toList) []

def textOf (records : List (List String)) (last : List Char) : String :=
  String.ofList ((records.map lineOf).flatMap (· ++ ['\n']) ++ last)

theorem scribbled_sameLine :
    List.Forall₂ SameLine (plainRecords.map lineOf) (scribbledRecords.map lineOf) := by
  refine .cons ?_ (.cons ?_ (.cons ?_ .nil))
  · exact .record (by simp) rfl rfl (by decide +kernel)
      (show readKind _ = .ok .float by decide +kernel) (by decide +kernel)
  · exact .record (by simp) rfl rfl (by decide +kernel)
      (show readKind _ = .ok .textureSample by decide +kernel) (by decide +kernel)
  · exact .record (by simp) rfl rfl (by decide +kernel)
      (show readKind _ = .ok .add by decide +kernel) (by decide +kernel)

theorem scribbled_sameText {last : List Char} (hlast : '\n' ∉ last) :
    SameText (textOf plainRecords last) (textOf scribbledRecords last) := by
  have hplain : ∀ line ∈ plainRecords.map lineOf, '\n' ∉ line := by decide +kernel
  have hscribbled : ∀ line ∈ scribbledRecords.map lineOf, '\n' ∉ line := by decide +kernel
  rw [SameText, textOf, textOf, String.toList_ofList, String.toList_ofList,
    Text.splitOn_joined _ hplain hlast, Text.splitOn_joined _ hscribbled hlast]
  exact List.rel_append scribbled_sameLine (.cons (.same last) .nil)

/-- One file that is loaded, and one that is refused at its last line. -/
theorem scribbled_load :
    ((load Handle.mk (textOf plainRecords "?1?2".toList)).toOption.isSome = true ∧
      (load Handle.mk (textOf plainRecords "?1?2".toList)).map Graph.unnamed =
        (load (fun n => ⟨n + 7⟩) (textOf scribbledRecords "?1?2".toList)).map Graph.unnamed) ∧
    load Handle.mk (textOf plainRecords "?2?2".toList) =
        .error (.graph 4 (.link (.selfLoop 4))) ∧
      (load Handle.mk (textOf plainRecords "?2?2".toList)).map Graph.unnamed =
        (load (fun n => ⟨n + 7⟩) (textOf scribbledRecords "?2?2".toList)).map Graph.unnamed := by
  have hloaded : (load Handle.mk (textOf plainRecords "?1?2".toList)).toOption.isSome = true := by
    rw [load, textOf, String.toList_ofList]
    decide +kernel
  have hrefused : load Handle.mk (textOf plainRecords "?2?2".toList) =
      .error (.graph 4 (.link (.selfLoop 4))) := by
    rw [load, textOf, String.toList_ofList]
    decide +kernel
  exact ⟨⟨hloaded, load_sameText (scribbled_sameText (by decide)) _ _⟩, hrefused,
    load_sameText (scribbled_sameText (by decide)) _ _⟩

end SavedGraph

end ShaderGraph
