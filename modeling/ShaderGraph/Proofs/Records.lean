import ShaderGraph.Proofs.Decimals
import ShaderGraph.Proofs.Except
import ShaderGraph.SavedGraph.Write

namespace ShaderGraph

namespace Text

def isSolid (c : Char) : Bool := !isBlank c && c ≠ ',' && c ≠ '?'

theorem isSolid_of_isDigit {c : Char} (h : c.isDigit = true) : isSolid c = true := by
  have hlow : 48 ≤ c.toNat ∧ c.toNat ≤ 57 := by
    simp only [Char.isDigit, Bool.and_eq_true, decide_eq_true_eq] at h
    exact h
  have hblank : isBlank c = false := by
    unfold isBlank
    simp only [Bool.or_eq_false_iff, Bool.and_eq_false_iff, decide_eq_false_iff_not]
    omega
  have hcomma : c ≠ ',' := by
    rintro rfl
    exact absurd h (by decide)
  have hmark : c ≠ '?' := by
    rintro rfl
    exact absurd h (by decide)
  simp [isSolid, hblank, hcomma, hmark]

theorem not_isBlank {c : Char} (h : isSolid c = true) : isBlank c = false := by
  simp only [isSolid, Bool.and_eq_true, Bool.not_eq_true'] at h
  exact h.1.1

/-- A text that starts and ends with something has nothing to trim. -/
theorem trim_eq {cs : List Char} (hfirst : ∀ c ∈ cs.head?, isBlank c = false)
    (hlast : ∀ c ∈ cs.getLast?, isBlank c = false) : trim cs = cs := by
  have hdrop : ∀ xs : List Char, (∀ c ∈ xs.head?, isBlank c = false) →
      xs.dropWhile isBlank = xs := by
    intro xs hxs
    cases xs with
    | nil => rfl
    | cons c xs => simp [hxs c (by simp)]
  rw [trim, hdrop cs hfirst, hdrop cs.reverse (by simpa using hlast), List.reverse_reverse]

theorem trim_solid {cs : List Char} (h : ∀ c ∈ cs, isSolid c = true) : trim cs = cs :=
  trim_eq (fun c hc => not_isBlank (h c (List.mem_of_mem_head? hc)))
    (fun c hc => not_isBlank (h c (List.mem_of_mem_getLast? hc)))

theorem splitOn_piece {sep : Char} {piece : List Char} (h : sep ∉ piece) :
    splitOn sep piece = [piece] := by
  induction piece with
  | nil => rfl
  | cons c piece ih =>
    simp only [List.mem_cons, not_or] at h
    rw [splitOn, if_neg (Ne.symm h.1), ih h.2]

theorem splitOn_append {sep : Char} {piece : List Char} (h : sep ∉ piece) (rest : List Char) :
    splitOn sep (piece ++ sep :: rest) = piece :: splitOn sep rest := by
  induction piece with
  | nil => simp [splitOn]
  | cons c piece ih =>
    simp only [List.mem_cons, not_or] at h
    rw [List.cons_append, splitOn, if_neg (Ne.symm h.1), ih h.2]

/-- A text falls apart into the pieces it was joined from. -/
theorem splitOn_joined {sep : Char} (pieces : List (List Char)) (h : ∀ p ∈ pieces, sep ∉ p)
    {last : List Char} (hlast : sep ∉ last) :
    splitOn sep (pieces.flatMap (· ++ [sep]) ++ last) = pieces ++ [last] := by
  induction pieces with
  | nil => exact splitOn_piece hlast
  | cons piece pieces ih =>
    have hrest := ih fun p hp => h p (by simp [hp])
    rw [List.flatMap_cons, List.append_assoc, List.append_assoc, List.singleton_append,
      splitOn_append (h piece (by simp)), hrest, List.cons_append]

theorem digits?_toDigits (n : Nat) : digits? (Nat.toDigits 10 n) = some n := by
  unfold digits?
  have hempty : (Nat.toDigits 10 n).isEmpty = false := by simp
  have hall : (Nat.toDigits 10 n).all Char.isDigit = true := by
    rw [List.all_eq_true]
    intro c hc
    exact Nat.isDigit_of_mem_toDigits (by decide) (by decide) hc
  simp only [hempty, hall, Bool.not_true, Bool.or_self, Bool.false_eq_true, ↓reduceIte]
  exact congrArg some Nat.ofDigitChars_ten_toDigits

theorem toDigits_solid (n : Nat) : ∀ c ∈ Nat.toDigits 10 n, isSolid c = true := by
  intro c hc
  exact isSolid_of_isDigit (Nat.isDigit_of_mem_toDigits (by decide) (by decide) hc)

/-- A number starts with a digit, not with a sign. -/
theorem toDigits_eq_cons (n : Nat) : ∃ c cs, Nat.toDigits 10 n = c :: cs ∧ c.isDigit = true := by
  obtain ⟨c, cs, h⟩ := List.exists_cons_of_ne_nil (Nat.toDigits_ne_nil (n := n) (b := 10))
  exact ⟨c, cs, h, Nat.isDigit_of_mem_toDigits (by decide) (by decide) (h ▸ List.mem_cons_self)⟩

theorem nat?_toDigits {bound n : Nat} (h : n < bound) :
    nat? bound (Nat.toDigits 10 n) = some n := by
  obtain ⟨c, cs, he, hc⟩ := toDigits_eq_cons n
  have hsign : ∀ ds, Nat.toDigits 10 n ≠ '+' :: ds := by
    intro ds hds
    rw [he] at hds
    cases hds
    cases hc
  unfold nat?
  split
  · rename_i ds hds
    exact absurd hds (hsign ds)
  · simp [digits?_toDigits, Option.filter, h]

theorem int64?_toDigits {n : Nat} (h : n < 2 ^ 63) :
    int64? (Nat.toDigits 10 n) = some (n : Int) := by
  obtain ⟨c, cs, he, hc⟩ := toDigits_eq_cons n
  unfold int64?
  split
  · rename_i ds hds
    rw [he] at hds
    cases hds
    cases hc
  · rw [Nat.pow_eq, nat?_toDigits h]
    rfl

end Text

theorem Scalar.toText_solid (x : Scalar) :
    ∀ c ∈ (Scalar.toText x).toList, Text.isSolid c = true := by
  have hspelling : ∀ m e, Scalar.Regular m e →
      ∀ c ∈ Scalar.spelling m e, Text.isSolid c = true := by
    intro m e hr c hc
    obtain ⟨whole, fraction, htext, ⟨⟨_, hspells⟩, _⟩, _⟩ := Scalar.spelling_recalls hr
    have hwhole : ∀ c ∈ whole, Text.isSolid c = true :=
      fun c hc => Text.isSolid_of_isDigit (hspells.whole_digits c hc)
    rw [htext] at hc
    split at hc
    · exact hwhole c hc
    · rcases List.mem_append.mp hc with hc | hc
      · exact hwhole c hc
      · rcases List.mem_cons.mp hc with rfl | hc
        · decide
        · exact Text.isSolid_of_isDigit (hspells.fraction_digits c hc)
  intro c
  unfold Scalar.toText
  cases hp : Scalar.parts x with
  | nan =>
    revert c
    exact List.all_eq_true.mp (by decide)
  | infinite negative =>
    revert c
    cases negative <;> exact List.all_eq_true.mp (by decide)
  | finite negative m e =>
    obtain ⟨hr, _⟩ := Scalar.eq_ofMagnitude hp
    change c ∈ (String.ofList (if negative then '-' :: Scalar.spelling m e
      else Scalar.spelling m e)).toList → _
    rw [String.toList_ofList]
    split
    · intro hc
      rcases List.mem_cons.mp hc with rfl | hc
      · decide
      · exact hspelling m e hr c hc
    · exact hspelling m e hr c

theorem Kind.ofCode?_code (k : Kind) : Kind.ofCode? k.code = some k := by
  cases k <;> rfl

theorem Kind.code_lt (k : Kind) : k.code < 2 ^ 16 := by
  cases k <;> decide

namespace SavedGraph

theorem readField_eq_ok {α : Type} (column : Column) {read : List Char → Option α}
    {field : List Char} {a : α} (hsolid : ∀ c ∈ field, Text.isSolid c = true)
    (hread : read field = some a) : readField column read field = .ok a := by
  rw [readField, Text.trim_solid hsolid, hread]

theorem readScalar_toText (column : Column) (x : Scalar) :
    readScalar column (Scalar.toText x).toList = .ok x :=
  readField_eq_ok column (Scalar.toText_solid x) (Scalar.ofChars?_toText x)

theorem readKind_code (k : Kind) : readKind (Nat.toDigits 10 k.code) = .ok k := by
  have hcode : readField .kind (Text.nat? (2 ^ 16)) (Nat.toDigits 10 k.code) = .ok k.code :=
    readField_eq_ok .kind (Text.toDigits_solid _) (Text.nat?_toDigits k.code_lt)
  refine except_bind_eq_ok.mpr ⟨k.code, hcode, ?_⟩
  rw [Kind.ofCode?_code]

def fieldsOf (g : Graph) (n : Node) : List (List Char) := (nodeFields g n).map String.toList

theorem fieldsOf_eq (g : Graph) (n : Node) : fieldsOf g n =
    [Nat.toDigits 10 n.kind.code, if n.property then ['1'] else ['0']]
      ++ (g.inputsOf n.id).toList.map (fun i => (inputField g i).toList)
      ++ [Nat.toDigits 10 (g.inputsOf n.id).count, Nat.toDigits 10 n.limit,
        Nat.toDigits 10 n.output.size]
      ++ (dataOf n).map (fun x => (Scalar.toText x).toList)
      ++ [(Scalar.toText n.position.1).toList, (Scalar.toText n.position.2).toList] := by
  have hflag : (if n.property then "1" else "0").toList = if n.property then ['1'] else ['0'] := by
    split <;> rfl
  simp only [fieldsOf, nodeFields, List.map_append, List.map_cons, List.map_nil, List.map_map,
    Function.comp_def, hflag, Nat.toString_eq_repr, Nat.toList_repr]

theorem dataOf_length (n : Node) : (dataOf n).length = 16 := by
  have hbuffer : ∀ v : Value, v.buffer.length = 16 := fun v => by simp [Value.buffer]
  unfold dataOf
  split
  · exact hbuffer _
  · split <;> exact hbuffer _

theorem inputField_solid (g : Graph) (i : Option NodeId) :
    ∀ c ∈ (inputField g i).toList, Text.isSolid c = true := by
  unfold inputField
  split
  · rw [Nat.toString_eq_repr, Nat.toList_repr]
    exact Text.toDigits_solid _
  · exact List.all_eq_true.mp (by decide)

theorem fieldsOf_solid (g : Graph) (n : Node) :
    ∀ field ∈ fieldsOf g n, ∀ c ∈ field, Text.isSolid c = true := by
  intro field hfield
  rw [fieldsOf_eq] at hfield
  simp only [List.mem_append, List.mem_cons, List.not_mem_nil, or_false, List.mem_map] at hfield
  rcases hfield with
    ((((rfl | rfl) | ⟨i, _, rfl⟩) | (rfl | rfl | rfl)) | ⟨x, _, rfl⟩) | (rfl | rfl)
  · exact Text.toDigits_solid _
  · split <;> exact List.all_eq_true.mp (by decide)
  · exact inputField_solid g i
  · exact Text.toDigits_solid _
  · exact Text.toDigits_solid _
  · exact Text.toDigits_solid _
  · exact Scalar.toText_solid x
  · exact Scalar.toText_solid _
  · exact Scalar.toText_solid _

def nodeRecord (g : Graph) (n : Node) : List Char := (fieldsOf g n).flatMap (· ++ [','])

theorem nodeLine_toList (g : Graph) (n : Node) :
    (nodeLine g n).toList = nodeRecord g n ++ ['\n'] := by
  simp [nodeLine, nodeRecord, fieldsOf, List.flatMap_map]

theorem not_mem_of_solid {cs : List Char} (h : ∀ c ∈ cs, Text.isSolid c = true) {c : Char}
    (hc : Text.isSolid c = false) : c ∉ cs := by
  intro hm
  rw [h c hm] at hc
  cases hc

/-- Fields that are joined to a record are told apart again. -/
theorem splitFields_joined {fields : List (List Char)} (hlength : fields.length = fieldCount)
    (hcomma : ∀ field ∈ fields, ',' ∉ field) :
    splitFields (fields.flatMap (· ++ [','])) = .ok fields := by
  rcases List.eq_nil_or_concat fields with rfl | ⟨fields, last, rfl⟩
  · cases hlength
  · have hsplit := Text.splitOn_joined fields (fun p hp => hcomma p (by simp [hp]))
      (hcomma last (by simp))
    have hlength : fields.length + 1 = fieldCount := by simpa using hlength
    simp [splitFields, hsplit, hlength]

theorem splitFields_nodeRecord (g : Graph) (n : Node) :
    splitFields (nodeRecord g n) = .ok (fieldsOf g n) := by
  refine splitFields_joined ?_ fun field hfield =>
    not_mem_of_solid (fieldsOf_solid g n field hfield) (by decide)
  rw [fieldsOf_eq]
  simp [dataOf_length, fieldCount]

/-- A node record starts with a digit and has no blank to trim. -/
theorem nodeRecord_eq_cons (g : Graph) (n : Node) : ∃ c cs, nodeRecord g n = c :: cs ∧
    c.isDigit = true ∧ Text.trim (c :: cs) = c :: cs := by
  obtain ⟨c, cs, hdigits, hc⟩ := Text.toDigits_eq_cons n.kind.code
  obtain ⟨rest, hfields⟩ : ∃ rest, fieldsOf g n = Nat.toDigits 10 n.kind.code :: rest :=
    ⟨_, fieldsOf_eq g n⟩
  have hrecord : ∃ tail, nodeRecord g n = c :: tail := by
    rw [nodeRecord, hfields, hdigits]
    exact ⟨_, rfl⟩
  have hend : ∃ start, nodeRecord g n = start ++ [','] := by
    rcases List.eq_nil_or_concat (fieldsOf g n) with he | ⟨fields, last, he⟩
    · rw [he] at hfields
      cases hfields
    · refine ⟨fields.flatMap (· ++ [',']) ++ last, ?_⟩
      rw [nodeRecord, he]
      simp
  obtain ⟨tail, htail⟩ := hrecord
  obtain ⟨start, hstart⟩ := hend
  refine ⟨c, tail, htail, hc, Text.trim_eq ?_ ?_⟩
  · intro d hd
    simp only [List.head?_cons, Option.mem_some_iff] at hd
    exact hd ▸ Text.not_isBlank (Text.isSolid_of_isDigit hc)
  · intro d hd
    rw [← htail, hstart, List.getLast?_concat, Option.mem_some_iff] at hd
    exact hd ▸ rfl

def recordOf (n : Node) : NodeRecord := ⟨n.kind, n.property, n.limit, dataOf n, n.position⟩

theorem readField_inputField {g : Graph} (hsize : g.nodes.length ≤ Graph.maxNodes)
    (i : Option NodeId) : ∃ k, readField .input Text.int64? (inputField g i).toList = .ok k := by
  have hsolid := inputField_solid g i
  unfold inputField at hsolid ⊢
  split at hsolid
  · rename_i p hp
    obtain ⟨id, _, hid⟩ := Option.bind_eq_some_iff.mp hp
    have hlt : p < g.nodes.length := by
      have := (List.idxOf?_eq_some_iff.mp hid).1
      simpa [Graph.ids] using this
    rw [Nat.toString_eq_repr, Nat.toList_repr] at hsolid ⊢
    refine ⟨p, readField_eq_ok .input hsolid (Text.int64?_toDigits ?_)⟩
    have : Graph.maxNodes = 1024 := rfl
    omega
  · exact ⟨-1, readField_eq_ok .input hsolid (by decide)⟩

/-- Where the columns of a record stand among its fields. -/
theorem columns {α : Type} {a b c l s x y z : α} {inputs data : List α} (hi : inputs.length = 4)
    (hd : data.length = 16) :
    let fields := [a, b] ++ inputs ++ [c, l, s] ++ data ++ [x, y]
    fields.getD 0 z = a ∧ fields.getD 1 z = b ∧ (fields.drop 2).take 4 = inputs ∧
      fields.getD 7 z = l ∧ (fields.drop 9).take 16 = data ∧ fields.getD 25 z = x ∧
      fields.getD 26 z = y := by
  obtain ⟨i₀, i₁, i₂, i₃, rfl⟩ : ∃ i₀ i₁ i₂ i₃, inputs = [i₀, i₁, i₂, i₃] := by
    match inputs, hi with
    | [i₀, i₁, i₂, i₃], _ => exact ⟨i₀, i₁, i₂, i₃, rfl⟩
  have hx : (data ++ [x, y])[16]? = some x := by
    rw [List.getElem?_append_right (by omega)]
    simp [hd]
  have hy : (data ++ [x, y])[17]? = some y := by
    rw [List.getElem?_append_right (by omega)]
    simp [hd]
  refine ⟨rfl, rfl, rfl, rfl, ?_, ?_, ?_⟩
  · simp [← hd]
  · simp [List.getD, hx]
  · simp [List.getD, hy]

/-- The record of a node reads back to all that is loaded of it. -/
theorem readNode_nodeRecord {g : Graph} (hsize : g.nodes.length ≤ Graph.maxNodes) {n : Node}
    (hlimit : n.limit ≤ 4) : readNode (nodeRecord g n) = .ok (recordOf n) := by
  refine except_bind_eq_ok.mpr ⟨_, splitFields_nodeRecord g n, ?_⟩
  rw [fieldsOf_eq]
  obtain ⟨hkind, hproperty, hinputs, hlimits, hdata, hx, hy⟩ := columns (z := [])
    (a := Nat.toDigits 10 n.kind.code) (b := if n.property then ['1'] else ['0'])
    (c := Nat.toDigits 10 (g.inputsOf n.id).count) (l := Nat.toDigits 10 n.limit)
    (s := Nat.toDigits 10 n.output.size) (x := (Scalar.toText n.position.1).toList)
    (y := (Scalar.toText n.position.2).toList)
    (by simp : ((g.inputsOf n.id).toList.map fun i => (inputField g i).toList).length = 4)
    (by simp [dataOf_length] : ((dataOf n).map fun x => (Scalar.toText x).toList).length = 16)
  simp only [hkind, hproperty, hinputs, hlimits, hdata, hx, hy]
  have hflag : readByte .property (if n.property then ['1'] else ['0']) =
      .ok (if n.property then 1 else 0) := by
    split <;> decide
  obtain ⟨k, hk⟩ : ∃ k : Option NodeId → Int, ∀ i, readField .input Text.int64?
      (inputField g i).toList = .ok (k i) := by
    choose k hk using readField_inputField hsize
    exact ⟨k, hk⟩
  have hins : ((g.inputsOf n.id).toList.map fun i => (inputField g i).toList).mapM
      (readField .input Text.int64?) = .ok ((g.inputsOf n.id).toList.map k) := by
    rw [List.mapM_map]
    exact mapM_eq_ok fun i _ => hk i
  have hlim : readSize .limit (Nat.toDigits 10 n.limit) = .ok n.limit :=
    readField_eq_ok .limit (Text.toDigits_solid _)
      (Text.nat?_toDigits (by rw [Nat.pow_eq]; omega))
  have hdat : ((dataOf n).map fun x => (Scalar.toText x).toList).mapM (readScalar .data) =
      .ok (dataOf n) := by
    rw [List.mapM_map]
    refine (mapM_eq_ok (g := id) fun x _ => readScalar_toText .data x).trans ?_
    rw [List.map_id]
  rw [readKind_code, hflag, hins, hlim, hdat, readScalar_toText, readScalar_toText]
  change Except.ok (NodeRecord.mk n.kind _ n.limit (dataOf n) (n.position.1, n.position.2)) =
    .ok (recordOf n)
  unfold recordOf
  congr 2
  cases n.property <;> simp

def edgeFields (source target slot : Nat) : List Char :=
  Nat.toDigits 10 source ++ '?' :: (Nat.toDigits 10 target ++ '?' :: Nat.toDigits 10 slot)

theorem linkLine_toList {g : Graph} {l : Link} {source target : Nat}
    (hs : position? g l.source = some source) (ht : position? g l.target = some target) :
    (linkLine g l).toList = '?' :: edgeFields source target l.slot ++ ['\n'] := by
  have hmark : (toString "?").toList = ['?'] := rfl
  have hbreak : (toString "\n").toList = ['\n'] := rfl
  simp [linkLine, hs, ht, edgeFields, hmark, hbreak]

theorem edgeFields_not_blank (source target slot : Nat) :
    ∀ c ∈ '?' :: edgeFields source target slot, Text.isBlank c = false := by
  intro c hc
  have hdigits : ∀ n, c ∈ Nat.toDigits 10 n → Text.isBlank c = false := fun n hn =>
    Text.not_isBlank (Text.toDigits_solid n c hn)
  simp only [edgeFields, List.mem_cons, List.mem_append] at hc
  rcases hc with rfl | hc | rfl | hc | rfl | hc
  · rfl
  · exact hdigits _ hc
  · rfl
  · exact hdigits _ hc
  · rfl
  · exact hdigits _ hc

theorem trim_edgeFields (source target slot : Nat) :
    Text.trim ('?' :: edgeFields source target slot) = '?' :: edgeFields source target slot := by
  have hblank := edgeFields_not_blank source target slot
  exact Text.trim_eq (fun c hc => hblank c (List.mem_of_mem_head? hc))
    (fun c hc => hblank c (List.mem_of_mem_getLast? hc))

theorem readReference_toDigits {known p : Nat} (hp : p < known) (hknown : known ≤ 2 ^ 64) :
    readReference known (Nat.toDigits 10 p) = .ok p := by
  have hread : readSize .reference (Nat.toDigits 10 p) = .ok p :=
    readField_eq_ok .reference (Text.toDigits_solid _)
      (Text.nat?_toDigits (by rw [Nat.pow_eq]; omega))
  unfold readReference
  rw [hread]
  change (if p < known then pure p else throw (RecordError.noNode p) : Except RecordError Nat) = _
  rw [if_pos hp]
  rfl

theorem readEdge_edgeFields {known source target slot : Nat} (hs : source < known)
    (ht : target < known) (hknown : known ≤ 2 ^ 64) (hslot : slot < 256) :
    readEdge known (edgeFields source target slot) = .ok ⟨source, target, some slot⟩ := by
  have hmark : ∀ n, '?' ∉ Nat.toDigits 10 n := fun n =>
    not_mem_of_solid (Text.toDigits_solid n) (by decide)
  have hsplit : Text.splitOn '?' (edgeFields source target slot) =
      [Nat.toDigits 10 source, Nat.toDigits 10 target, Nat.toDigits 10 slot] := by
    rw [edgeFields, Text.splitOn_append (hmark source), Text.splitOn_append (hmark target),
      Text.splitOn_piece (hmark slot)]
  have hbyte : readByte .slot (Nat.toDigits 10 slot) = .ok slot :=
    readField_eq_ok .slot (Text.toDigits_solid _) (Text.nat?_toDigits hslot)
  unfold readEdge
  rw [hsplit]
  simp only [readReference_toDigits hs hknown, readReference_toDigits ht hknown, hbyte]
  rfl

end SavedGraph

end ShaderGraph
