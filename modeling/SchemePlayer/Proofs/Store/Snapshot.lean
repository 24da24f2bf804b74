import SchemePlayer.Proofs.Json.RoundTrip
import SchemePlayer.Proofs.Number.RoundTrip
import SchemePlayer.Store.Snapshot

/-!
# Variable sets come back from their text

A variable set is written as a record and read field by field. A set comes back as it was if it is
one that can exist (its names are distinct, its handles fit 64 bits), its texts are well-formed, and
its record is not nested deeper than the reader goes:

- `VarSet.WellFormed`, `VarSet.nesting`: the two conditions.
- `VarSet.readable_toJson`: the record is within the limits of the reader.
- `VarSet.ofJson?_toJson`: every field is found again, and only its own value under its name.
- `VarSet.decode?_encode`: **a variable set is read back as itself, at every depth.**
-/

namespace SchemePlayer

/-- **An integer of a record is read back**, if it fits the width. -/
theorem Json.asInt?_int {n : Int} (hlow : -(twoTo 63) ≤ n) (hhigh : n < twoTo 63) :
    (Json.int n).asInt? = some (some n) := by
  have hnumeral : Reading.Numeral (Text.ofNat n.natAbs) :=
    Reading.numeral_of_digits Text.isDigit_ofNat (Text.ofNat_ne_nil _)
  have hnatural : Reading.natural? 10 (Text.ofNat n.natAbs) = some n.natAbs := by
    rw [Reading.natural?, if_neg (Text.ofNat_ne_nil _),
      Reading.digits?_digits Text.isDigit_ofNat, Reading.decimal_zero_ofNat]
    rfl
  have hvalue : (if decide (n < 0) then -(n.natAbs : Int) else n.natAbs) = n := by
    split <;> rename_i hsign <;> simp only [decide_eq_true_eq] at hsign <;> omega
  rw [Json.int, asInt?, Reading.ofInt_eq_signed, Reading.sign_signed hnumeral]
  dsimp only
  rw [hnatural]
  dsimp only
  rw [hvalue, if_pos ⟨hlow, hhigh⟩]

namespace VarSet

/-! ### What can be kept -/

mutual

/-- How deep the record of a variable set is nested: itself, its values, its children. -/
def nesting : VarSet → Nat
  | mk _ _ values children =>
    1 + max (if values.isEmpty then 0 else 1)
      (if children.isEmpty then 0 else 1 + nestingAll children)

/-- The same for the deepest of several. -/
def nestingAll : List VarSet → Nat
  | [] => 0
  | v :: vs => max v.nesting (nestingAll vs)

end

/-- A variable set as a program can have it, all of whose texts are well-formed: values are by name,
and a handle has 64 bits. -/
inductive WellFormed : VarSet → Prop
  | mk {className : Text} {handle : Int} {values : List (Text × Text)} {children : List VarSet}
      (hclass : Text.isUtf8 className = true)
      (hhandle : -(twoTo 63) ≤ handle ∧ handle < twoTo 63)
      (hnames : (values.map (·.1)).Nodup)
      (hvalues : ∀ p ∈ values, Text.isUtf8 p.1 = true ∧ Text.isUtf8 p.2 = true)
      (hchildren : ∀ c ∈ children, WellFormed c) : WellFormed (mk className handle values children)

theorem nesting_le_nestingAll {v : VarSet} {vs : List VarSet} (h : v ∈ vs) :
    v.nesting ≤ nestingAll vs := by
  induction vs with
  | nil => cases h
  | cons v' vs ih =>
    rw [nestingAll]
    rcases List.mem_cons.mp h with rfl | h
    · exact Nat.le_max_left ..
    · exact Nat.le_trans (ih h) (Nat.le_max_right ..)

/-! ### The record -/

theorem toJsonList_eq_map (vs : List VarSet) : toJsonList vs = vs.map toJson := by
  induction vs with
  | nil => rfl
  | cons v vs ih => rw [toJsonList, ih, List.map_cons]

/-- The names of the fields. -/
def fieldNames : List Text := ["class", "handle", "values", "children"]

/-- The members of the record of a variable set. -/
def members (className : Text) (handle : Int) (values : List (Text × Text))
    (children : List VarSet) : List (Text × Json) :=
  [(("class" : Text), Json.str className), (("handle" : Text), Json.int handle)] ++
    (if values.isEmpty then []
      else [(("values" : Text), Json.obj (values.map fun (name, text) => (name, .str text)))]) ++
    (if children.isEmpty then [] else [(("children" : Text), Json.arr (children.map toJson))])

theorem toJson_eq (className : Text) (handle : Int) (values : List (Text × Text))
    (children : List VarSet) :
    toJson (mk className handle values children) =
      .obj (members className handle values children) := by
  rw [toJson, toJsonList_eq_map]
  unfold Json.record Json.optional members
  cases values.isEmpty <;> cases children.isEmpty <;> rfl

/-- **The record of a variable set is within the limits of the reader.** -/
theorem readable_toJson {v : VarSet} (h : v.WellFormed) {depth : Nat}
    (hdepth : depth + v.nesting ≤ Json.maxDepth) : Json.Readable depth v.toJson := by
  induction h generalizing depth with
  | @mk className handle values children hclass _ _ hvalues _ ih =>
    rw [nesting] at hdepth
    have hfields : ∀ name ∈ fieldNames, Text.isUtf8 name = true := by decide +kernel
    have hmembers : ∀ m ∈ members className handle values children,
        m.1 ∈ fieldNames ∧ Json.Readable (depth + 1) m.2 := by
      intro m hm
      simp only [members, List.mem_append, List.mem_cons, List.not_mem_nil, or_false] at hm
      rcases hm with ((rfl | rfl) | hm) | hm
      · exact ⟨by simp [fieldNames], .str hclass⟩
      · exact ⟨by simp [fieldNames], .int handle⟩
      · split at hm
        · cases hm
        · rename_i hsome
          obtain rfl := List.mem_singleton.mp hm
          rw [if_neg hsome] at hdepth
          refine ⟨by simp [fieldNames], .obj (by omega) ?_ ?_⟩
          · intro m hm
            obtain ⟨p, hp, rfl⟩ := List.mem_map.mp hm
            exact (hvalues p hp).1
          · intro m hm
            obtain ⟨p, hp, rfl⟩ := List.mem_map.mp hm
            exact .str (hvalues p hp).2
      · split at hm
        · cases hm
        · rename_i hsome
          obtain rfl := List.mem_singleton.mp hm
          rw [if_neg hsome] at hdepth
          refine ⟨by simp [fieldNames], .arr (by omega) ?_⟩
          intro j hj
          obtain ⟨c, hc, rfl⟩ := List.mem_map.mp hj
          have hdeepest := nesting_le_nestingAll hc
          exact ih c hc (by omega)
    rw [toJson_eq]
    exact .obj (by omega) (fun m hm => hfields _ (hmembers m hm).1) (fun m hm => (hmembers m hm).2)

/-! ### Reading the record -/

/-- Values with names of their own are taken in their order. -/
theorem takeValues_map {found values : List (Text × Text)}
    (h : ((found ++ values).map (·.1)).Nodup) :
    takeValues found (values.map fun (name, text) => (name, .str text)) =
      some (found ++ values) := by
  induction values generalizing found with
  | nil => rw [List.map_nil, takeValues, List.append_nil]
  | cons p values ih =>
    obtain ⟨name, text⟩ := p
    have hfresh : found.filter (·.1 ≠ name) = found := by
      rw [List.filter_eq_self]
      intro q hq
      rw [List.map_append, List.nodup_append] at h
      exact decide_eq_true (h.2.2 _ (List.mem_map_of_mem hq) _ List.mem_cons_self)
    have hset : setValue found name text = found ++ [(name, text)] := by rw [setValue, hfresh]
    rw [List.map_cons, takeValues, Json.asText?]
    dsimp only
    rw [Option.getD_some, hset, ih (by rwa [List.append_assoc]), List.append_assoc]
    rfl

theorem itemsOf?_map {vs : List VarSet} (h : ∀ v ∈ vs, ofJson? v.toJson = some v) :
    itemsOf? (vs.map toJson) = some vs := by
  induction vs with
  | nil => rfl
  | cons v vs ih =>
    rw [List.map_cons, itemsOf?, h v List.mem_cons_self,
      ih fun w hw => h w (List.mem_cons_of_mem _ hw)]

/-- No field is taken for another one, upper and lower case being the same. -/
theorem fieldNames_apart : fieldNames.Pairwise fun a b =>
    Text.equalFold a b = false ∧ Text.equalFold b a = false := by
  decide +kernel

section

variable (className : Text) (handle : Int) (values : List (Text × Text)) (children : List VarSet)

/-- The values under the names of the first three fields. -/
theorem named_members :
    let j := Json.obj (members className handle values children)
    j.named "class" = [.str className] ∧ j.named "handle" = [.int handle] ∧
      j.named "values" = if values.isEmpty then []
        else [.obj (values.map fun (name, text) => (name, .str text))] := by
  have hapart := fieldNames_apart
  simp only [fieldNames, List.pairwise_cons, List.mem_cons, List.not_mem_nil, or_false,
    forall_eq_or_imp, forall_eq] at hapart
  unfold members
  cases values <;> cases children <;> simp [Json.named, hapart, Text.equalFold_refl]

/-- The children are found in the last field, if there is one. -/
theorem childrenIn?_members (h : ∀ c ∈ children, ofJson? c.toJson = some c) :
    childrenIn? (members className handle values children) =
      some (if children.isEmpty then none else some children) := by
  have hitems := itemsOf?_map h
  have hapart := fieldNames_apart
  simp only [fieldNames, List.pairwise_cons, List.mem_cons, List.not_mem_nil, or_false,
    forall_eq_or_imp, forall_eq] at hapart
  unfold members
  cases children with
  | nil => cases values <;> simp [childrenIn?, hapart]
  | cons c children =>
    rw [List.map_cons] at hitems
    cases values <;> simp [childrenIn?, listOf?, hapart, hitems, Text.equalFold_refl]

end

/-- **A variable set is read back from its record.** -/
theorem ofJson?_toJson {v : VarSet} (h : v.WellFormed) : ofJson? v.toJson = some v := by
  induction h with
  | @mk className handle values children _ hhandle hnames _ _ ih =>
    obtain ⟨hclass, hnumber, hvalues⟩ := named_members className handle values children
    have hread : valuesIn? (.obj (members className handle values children)) = some values := by
      rw [valuesIn?, hvalues]
      cases values with
      | nil => rfl
      | cons p values =>
        show (takeValues [] _).bind _ = _
        rw [@takeValues_map [] _ hnames]
        rfl
    rw [toJson_eq, ofJson?, Json.field?, Json.field?, hclass, hnumber, hread,
      childrenIn?_members _ _ _ _ ih]
    simp only [List.foldlM_cons, List.foldlM_nil, Json.asText?,
      Json.asInt?_int hhandle.1 hhandle.2, Option.map_some, Option.getD_some, Option.bind_eq_bind,
      Option.bind_some]
    cases children <;> rfl

/-- **A variable set is read back as itself**, with all that is below it. -/
theorem decode?_encode {v : VarSet} (h : v.WellFormed) (hdeep : v.nesting ≤ Json.maxDepth) :
    decode? v.encode = some v := by
  rw [decode?, encode, Json.parse?_render (readable_toJson h (by omega)), Option.bind_some,
    ofJson?_toJson h]

end VarSet

end SchemePlayer
