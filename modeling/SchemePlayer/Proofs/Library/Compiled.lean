import SchemePlayer.Library.Compiled
import SchemePlayer.Proofs.Cbor.RoundTrip

/-!
# Which libraries can be read again

Any list of classes can be written, but not all that is written can be read: the reader wants
names, types that exist and texts in UTF-8. The records below are written and read field by field,
and the only way to lose a record is a text, so each is described by the texts that it depends on:

- `Yields`: a reading that gives a value if some texts are UTF-8, and fails otherwise.
- `WithinLimits`: the classes that keep to the limits of the reader.
- `readable_ofClasses`: within the limits, the bytes are read back as the item they encode.
- `decode_encode`: **a library is read again exactly when every class has a name, every type exists
  and every text is UTF-8, and then with all that was in it.**
-/

namespace SchemePlayer.Compiled

open Cbor

/-! ### Readings -/

/-- A reading that gives `a` if some texts are all UTF-8, and fails otherwise. -/
def Yields {α : Type} (o : Option α) (texts : List Text) (a : α) : Prop :=
  o = if texts.all Text.isUtf8 then some a else none

namespace Yields

variable {α β : Type} {o : Option α} {texts others : List Text} {a : α} {b : β}

theorem of_eq (h : o = some a) : Yields o [] a := h

theorem bind {f : α → Option β} (h : Yields o texts a) (hf : Yields (f a) others b) :
    Yields (o >>= f) (texts ++ others) b := by
  unfold Yields at *
  rw [List.all_append, h]
  cases texts.all Text.isUtf8
  · rfl
  · exact hf

/-- Only which texts there are counts. -/
theorem of_mem_iff (h : Yields o texts a) (hmem : ∀ t, t ∈ texts ↔ t ∈ others) :
    Yields o others a := by
  have hall : others.all Text.isUtf8 = texts.all Text.isUtf8 := by
    rw [Bool.eq_iff_iff, List.all_eq_true, List.all_eq_true]
    exact forall_congr' fun t => by rw [hmem t]
  unfold Yields at *
  rw [hall, h]

/-- Items that were written one by one are read so. -/
theorem mapM {γ : Type} {write : γ → Cbor} {read : Cbor → Option α} {of : γ → List Text}
    {back : γ → α} {l : List γ} (h : ∀ c ∈ l, Yields (read (write c)) (of c) (back c)) :
    Yields ((l.map write).mapM read) (l.flatMap of) (l.map back) := by
  induction l with
  | nil => rfl
  | cons c l ih =>
    rw [List.map_cons, List.mapM_cons]
    have hrest := ih fun d hd => h d (List.mem_cons_of_mem _ hd)
    refine of_mem_iff ((h c List.mem_cons_self).bind (hrest.bind (of_eq rfl))) fun t => ?_
    simp

end Yields

theorem yields_text (t : Text) : Yields (asText? (ofText t)) [t] t := by
  simp [Yields, asText?, ofText, untag]

/-! ### Fields -/

/-- The item under a key of a record. -/
def value? (r : Record) (number : Nat) : Option Cbor :=
  (r.find? fun p => isKeyOf number p.1).map (·.2)

@[simp] theorem value?_append (r s : Record) (number : Nat) :
    value? (r ++ s) number = (value? r number).or (value? s number) := by
  simp only [value?, List.find?_append]
  cases r.find? fun p => isKeyOf number p.1 <;> rfl

@[simp] theorem value?_required (key number : Nat) (v : Cbor) :
    value? (required key v) number = if key = number then some v else none := by
  by_cases h : key = number <;> simp [value?, required, isKeyOf, h]

@[simp] theorem value?_optional (key number : Nat) (isEmpty : Bool) (v : Cbor) :
    value? (optional key isEmpty v) number =
      if key = number ∧ isEmpty = false then some v else none := by
  cases isEmpty <;> by_cases h : key = number <;> simp [value?, optional, isKeyOf, h]

section

variable {α : Type} {r : Record} {number : Nat} {missing : α} {read : Cbor → Option α} {v : Cbor}

theorem field?_of_value? (h : value? r number = some v) :
    r.field? number missing read = read v := by
  unfold Record.field?
  simp only [value?] at h
  split
  · rename_i key value hfind
    rw [hfind] at h
    simp at h
    rw [h]
  · rename_i hfind
    rw [hfind] at h
    cases h

theorem field?_of_missing (h : value? r number = none) :
    r.field? number missing read = some missing := by
  unfold Record.field?
  simp only [value?, Option.map_eq_none_iff] at h
  rw [h]

theorem Yields.required {texts : List Text} {a : α} (hv : Yields (read v) texts a)
    (h : value? r number = some v) : Yields (r.field? number missing read) texts a :=
  (field?_of_value? h).trans hv

/-- A field that is left out when it is empty reads as if it were there. -/
theorem Yields.optional {isEmpty : Bool} {texts : List Text} {a : α} (hv : Yields (read v) texts a)
    (h : value? r number = if isEmpty = false then some v else none)
    (hempty : isEmpty = true → read v = some missing) :
    Yields (r.field? number missing read) texts a := by
  refine Eq.trans ?_ hv
  cases isEmpty with
  | false => exact field?_of_value? h
  | true => rw [hempty rfl, field?_of_missing h]

end

/-- What a record is read as, whichever of its fields are left out. -/
theorem asRecord?_map {r : Record} (h : r.all fun p => isKey p.1) :
    (map r).asRecord? = some r := by
  simp [asRecord?, untag, h]

@[simp] theorem all_isKey_required (number : Nat) (v : Cbor) :
    (required number v).all (fun p => isKey p.1) = true := rfl

@[simp] theorem all_isKey_optional (number : Nat) (isEmpty : Bool) (v : Cbor) :
    (optional number isEmpty v).all (fun p => isKey p.1) = true := by
  cases isEmpty <;> rfl

/-! ### Records -/

/-- The numbers of a machine word. -/
def IsWord (n : Int) : Prop := -(twoTo 63) ≤ n ∧ n < twoTo 63

instance (n : Int) : Decidable (IsWord n) := inferInstanceAs (Decidable (_ ∧ _))

theorem asInt?_ofInt {n : Int} (h : IsWord n) : asInt? (Cbor.ofInt n) = some n := by
  obtain ⟨hlow, hhigh⟩ := h
  unfold Cbor.ofInt
  split
  · rename_i hpos
    simp only [asInt?, untag, Int.toNat_of_nonneg hpos]
    rw [if_pos ⟨hlow, hhigh⟩]
  · rename_i hneg
    have hn : -1 - ((-1 - n).toNat : Int) = n := by omega
    simp only [asInt?, untag, hn]
    rw [if_pos ⟨hlow, hhigh⟩]

theorem asNat?_unsigned {n limit : Nat} (h : n ≤ limit) : asNat? limit (unsigned n) = some n := by
  simp [asNat?, untag, h]

theorem yields_flags (flags : UInt32) :
    Yields (asNat? (twoTo 32 - 1) (unsigned flags.toNat)) [] flags.toNat :=
  .of_eq (asNat?_unsigned (Nat.le_sub_one_of_lt flags.toNat_lt))

theorem flags_of_isEmpty {flags : UInt32} (h : (flags == 0) = true) :
    asNat? (twoTo 32 - 1) (unsigned flags.toNat) = some 0 := by
  rw [beq_iff_eq.mp h]
  rfl

theorem text_of_isEmpty {t : Text} (h : t.isEmpty = true) : asText? (ofText t) = some [] := by
  rw [List.isEmpty_iff.mp h]
  rfl

/-- A list that is left out when it is empty is read item by item. -/
theorem yields_list {α γ : Type} {r : Record} {number : Nat} {write : γ → Cbor}
    {read : Cbor → Option α} {of : γ → List Text} {back : γ → α} {l : List γ}
    (h : ∀ c ∈ l, Yields (read (write c)) (of c) (back c))
    (hvalue : value? r number = if l.isEmpty = false then some (array (l.map write)) else none) :
    Yields (r.field? number [] (asList? read)) (l.flatMap of) (l.map back) := by
  have hlist : Yields (asList? read (array (l.map write))) (l.flatMap of) (l.map back) := .mapM h
  refine hlist.optional hvalue fun hempty => ?_
  rw [List.isEmpty_iff.mp hempty]
  rfl

theorem yields_var (v : VarDecl) : Yields (var? (ofVar v)) [v.name, v.dflt] v := by
  unfold var? ofVar
  rw [asRecord?_map (by simp)]
  have hcode := asNat?_unsigned (Nat.le_of_lt_succ v.type.code.toNat_lt)
  exact .bind (.of_eq rfl) <| .bind ((yields_text v.name).required (by simp)) <|
    .bind (.required (.of_eq hcode) (by simp)) <|
    .bind ((yields_text v.dflt).optional (by simp) text_of_isEmpty) <|
    .bind ((yields_flags v.flags).optional (by simp) flags_of_isEmpty) <| .of_eq (by simp)

/-- A coordinate as it is read again: zero loses its sign. -/
def coordinate (x : Float) : Float := if x == 0 then 0 else x

/-- A child as it is read again. -/
def recoveredChild (c : ChildDecl) : ChildDecl :=
  { c with x := coordinate c.x, y := coordinate c.y }

theorem yields_coordinate {r : Record} {number : Nat} (x : Float)
    (h : value? r number = if (x == 0) = false then some (float x) else none) :
    Yields (r.field? number 0 asFloat?) [] (coordinate x) := by
  unfold coordinate
  cases hzero : x == 0 with
  | false =>
    rw [hzero] at h
    exact .of_eq (field?_of_value? h)
  | true =>
    rw [hzero] at h
    exact .of_eq (field?_of_missing h)

theorem yields_child {c : ChildDecl} (h : IsWord c.handle) :
    Yields (child? (ofChild c)) [c.className, c.name] (recoveredChild c) := by
  unfold child? ofChild
  rw [asRecord?_map (by simp)]
  exact .bind (.of_eq rfl) <| .bind ((yields_text c.className).required (by simp)) <|
    .bind (.required (.of_eq (asInt?_ofInt h)) (by simp)) <|
    .bind ((yields_text c.name).optional (by simp) text_of_isEmpty) <|
    .bind (yields_coordinate c.x (by simp)) <| .bind (yields_coordinate c.y (by simp)) <|
    .bind ((yields_flags c.flags).optional (by simp) flags_of_isEmpty) <|
    .of_eq (by simp [recoveredChild])

/-- The names of the variables that a link joins. -/
def linkTexts (l : LinkDecl) : List Text := l.vars.flatMap fun (a, b) => [a, b]

theorem yields_pair (a b : Text) : Yields (asPair? (array [ofText a, ofText b])) [a, b] (a, b) := by
  have hboth : Yields ([ofText a, ofText b].mapM asText?) [a, b] [a, b] :=
    @Yields.mapM _ _ ofText asText? (fun t => [t]) id [a, b] fun t _ => yields_text t
  unfold Yields at hboth ⊢
  simp only [asPair?, untag, List.take_succ_cons, List.take_zero, hboth]
  by_cases hutf8 : [a, b].all Text.isUtf8 <;> simp only [hutf8, if_true, if_false, Bool.false_eq_true]

theorem yields_link {l : LinkDecl} (h1 : IsWord l.handle1) (h2 : IsWord l.handle2) :
    Yields (link? (ofLink l)) (linkTexts l) l := by
  unfold link? ofLink
  rw [asRecord?_map (by simp)]
  have hpairs : ∀ v ∈ l.vars, Yields (asPair? ((fun (a, b) => array [ofText a, ofText b]) v))
      ((fun (a, b) => [a, b]) v) (id v) := fun v _ => yields_pair v.1 v.2
  refine .of_mem_iff (.bind (.of_eq rfl) <| .bind (.required (.of_eq (asInt?_ofInt h1)) (by simp)) <|
    .bind (.required (.of_eq (asInt?_ofInt h2)) (by simp)) <|
    .bind (yields_list hpairs (by simp)) <|
    .bind ((yields_flags l.flags).optional (by simp) flags_of_isEmpty) <| .of_eq ?_) ?_
  · simp
  · simp [linkTexts]

/-- The texts of a class that are written: those of its literals only if there is code. -/
def writtenTexts (p : Prototype) : List Text :=
  p.name :: (p.vars.flatMap fun v => [v.name, v.dflt])
    ++ (p.children.flatMap fun c => [c.className, c.name])
    ++ p.links.flatMap linkTexts
    ++ if p.program.isEmpty then [] else p.program.strings.toList

theorem mem_writtenTexts {p : Prototype} {t : Text} :
    t ∈ writtenTexts p ↔ t = p.name ∨ (∃ v ∈ p.vars, t ∈ [v.name, v.dflt]) ∨
      (∃ c ∈ p.children, t ∈ [c.className, c.name]) ∨ (∃ l ∈ p.links, t ∈ linkTexts l) ∨
      (p.program.isEmpty = false ∧ t ∈ p.program.strings.toList) := by
  simp [writtenTexts]

/-- A class as it is read again. -/
def recovered (p : Prototype) : Prototype :=
  { p with
    children := p.children.map recoveredChild
    code := if p.program.isEmpty then none else p.code
    dir := [] }

/-- A class that keeps to the limits of the reader: its lists are not too long, the lengths of its
texts can be written, and its handles are machine words. -/
structure WithinLimits (p : Prototype) : Prop where
  vars : p.vars.length ≤ maxCount
  children : p.children.length ≤ maxCount
  links : p.links.length ≤ maxCount
  joined : ∀ l ∈ p.links, l.vars.length ≤ maxCount
  literals : p.program.isEmpty = false → p.program.strings.size ≤ maxCount
  texts : ∀ t ∈ writtenTexts p, t.length < twoTo 64
  code : p.program.bytes.size < twoTo 64
  scheme : p.scheme.length < twoTo 64
  childHandles : ∀ c ∈ p.children, IsWord c.handle
  linkHandles : ∀ l ∈ p.links, IsWord l.handle1 ∧ IsWord l.handle2

theorem yields_bytes {r : Record} {number : Nat} (b : Text)
    (h : value? r number = if b.isEmpty = false then some (bytes b) else none) :
    Yields (r.field? number [] asBytes?) [] b := by
  refine Yields.optional (.of_eq rfl) h fun hempty => ?_
  rw [List.isEmpty_iff.mp hempty]
  rfl

/-- The literals are read again if there is code. -/
theorem yields_literals {r : Record} {number : Nat} (code : Code)
    (h : value? r number = if (code.isEmpty || code.strings.isEmpty) = false then
      some (array (code.strings.toList.map ofText)) else none) :
    Yields (r.field? number [] (asList? asText?))
      (if code.isEmpty then [] else code.strings.toList)
      (if code.isEmpty then [] else code.strings.toList) := by
  cases hcode : code.isEmpty with
  | true =>
    rw [hcode] at h
    exact .of_eq (field?_of_missing h)
  | false =>
    rw [hcode, Bool.false_or, ← Array.isEmpty_toList] at h
    have hlist := yields_list (fun t _ => yields_text t) h
    simpa using hlist

theorem yields_class {p : Prototype} (h : WithinLimits p) :
    Yields (class? (ofClass p)) (writtenTexts p) (recovered p) := by
  unfold class? ofClass
  dsimp only
  rw [asRecord?_map (by simp)]
  have hvars := fun v (_ : v ∈ p.vars) => yields_var v
  have hchildren := fun c (hc : c ∈ p.children) => yields_child (h.childHandles c hc)
  have hlinks := fun l (hl : l ∈ p.links) =>
    yields_link (h.linkHandles l hl).1 (h.linkHandles l hl).2
  have hcode : p.program.isEmpty = p.program.bytes.toList.isEmpty := by
    rw [Array.isEmpty_toList]
    rfl
  refine .of_mem_iff (.bind (.of_eq rfl) <| .bind ((yields_text p.name).required (by simp)) <|
    .bind (yields_list hvars (by simp)) <| .bind (yields_list hchildren (by simp)) <|
    .bind (yields_list hlinks (by simp)) <|
    .bind (yields_bytes p.program.bytes.toList (by simp [hcode])) <|
    .bind (yields_literals p.program (by simp)) <|
    .bind (yields_bytes p.scheme (by simp)) <| .of_eq ?_) ?_
  · simp only [← hcode, List.map_id', Array.toArray_toList, Option.pure_def, Option.some.injEq]
    unfold recovered
    congr 1
    split
    · rfl
    · rename_i hsome
      cases hp : p.code with
      | none => simp [Prototype.program, hp, Code.isEmpty, Code.empty] at hsome
      | some code => simp [Prototype.program, hp]
  · simp [writtenTexts]

theorem yields_library {ps : List Prototype} (h : ∀ p ∈ ps, WithinLimits p) :
    Yields (library? (ofClasses ps)) (ps.flatMap writtenTexts) (version, ps.map recovered) := by
  unfold library? ofClasses
  rw [asRecord?_map (by simp)]
  have hclasses : Yields (asList? class? (array (ps.map ofClass))) (ps.flatMap writtenTexts)
      (ps.map recovered) := .mapM fun p hp => yields_class (h p hp)
  have hversion : asInt? (unsigned version) = some version := rfl
  refine .of_mem_iff (.bind (.of_eq rfl) <| .bind (.required (.of_eq hversion) (by simp)) <|
    .bind (hclasses.required (by simp)) <| .of_eq rfl) ?_
  simp

/-! ### Limits -/

/-- So many fields at most, and all of them readable. -/
structure Fields (depth count : Nat) (r : Record) : Prop where
  count : r.length ≤ count
  readable : ∀ f ∈ r, Readable depth f.1 ∧ Readable depth f.2

namespace Fields

variable {depth m n number : Nat} {r s : Record} {v : Cbor}

theorem append (h : Fields depth m r) (h' : Fields depth n s) : Fields depth (m + n) (r ++ s) where
  count := by
    rw [List.length_append]
    exact Nat.add_le_add h.count h'.count
  readable f hf := (List.mem_append.mp hf).elim (h.readable f) (h'.readable f)

theorem required (hnumber : number < twoTo 64) (hv : Readable depth v) :
    Fields depth 1 (Compiled.required number v) where
  count := Nat.le_refl 1
  readable f hf := by
    obtain rfl := List.mem_singleton.mp hf
    exact ⟨.unsigned hnumber, hv⟩

theorem optional {isEmpty : Bool} (hnumber : number < twoTo 64)
    (hv : isEmpty = false → Readable depth v) :
    Fields depth 1 (Compiled.optional number isEmpty v) := by
  cases isEmpty with
  | true => exact ⟨Nat.zero_le 1, fun f hf => nomatch hf⟩
  | false => exact required hnumber (hv rfl)

theorem readable_map (h : Fields (depth + 1) n r) (hn : n ≤ maxCount) (hdepth : depth < maxDepth) :
    Readable depth (map r) :=
  .map hdepth (h.count.trans hn) (fun f hf => (h.readable f hf).1) fun f hf => (h.readable f hf).2

end Fields

theorem readable_array {γ : Type} {depth : Nat} {l : List γ} {write : γ → Cbor}
    (hdepth : depth < maxDepth) (hcount : l.length ≤ maxCount)
    (h : ∀ c ∈ l, Readable (depth + 1) (write c)) : Readable depth (array (l.map write)) := by
  refine .array hdepth (by rwa [List.length_map]) fun i hi => ?_
  obtain ⟨c, hc, rfl⟩ := List.mem_map.mp hi
  exact h c hc

theorem readable_ofInt {depth : Nat} {n : Int} (h : IsWord n) : Readable depth (Cbor.ofInt n) := by
  obtain ⟨hlow, hhigh⟩ := h
  simp only [twoTo, Nat.pow_eq, Nat.reducePow, Nat.cast_ofNat] at hlow hhigh
  unfold Cbor.ofInt
  split
  · exact .unsigned (by simp only [twoTo, Nat.pow_eq, Nat.reducePow]; omega)
  · exact .negative (by simp only [twoTo, Nat.pow_eq, Nat.reducePow]; omega)

theorem readable_flags {depth : Nat} (flags : UInt32) : Readable depth (unsigned flags.toNat) :=
  .unsigned (flags.toNat_lt.trans (by decide))

theorem readable_var {depth : Nat} (hdepth : depth < maxDepth) {v : VarDecl}
    (hname : v.name.length < twoTo 64) (hdflt : v.dflt.length < twoTo 64) :
    Readable depth (ofVar v) := by
  have hcode : v.type.code.toNat < twoTo 64 := v.type.code.toNat_lt.trans (by decide)
  exact Fields.readable_map ((((Fields.required (by decide) (.text hname)).append
    (.required (by decide) (.unsigned hcode))).append
    (.optional (by decide) fun _ => .text hdflt)).append
    (.optional (by decide) fun _ => readable_flags v.flags)) (by decide) hdepth

theorem readable_child {depth : Nat} (hdepth : depth < maxDepth) {c : ChildDecl}
    (hclass : c.className.length < twoTo 64) (hname : c.name.length < twoTo 64)
    (hhandle : IsWord c.handle) : Readable depth (ofChild c) :=
  Fields.readable_map ((((((Fields.required (by decide) (.text hclass)).append
    (.required (by decide) (readable_ofInt hhandle))).append
    (.optional (by decide) fun _ => .text hname)).append
    (.optional (by decide) fun _ => .float c.x)).append
    (.optional (by decide) fun _ => .float c.y)).append
    (.optional (by decide) fun _ => readable_flags c.flags)) (by decide) hdepth

theorem readable_link {depth : Nat} (hdepth : depth + 2 < maxDepth) {l : LinkDecl}
    (hcount : l.vars.length ≤ maxCount) (htexts : ∀ t ∈ linkTexts l, t.length < twoTo 64)
    (hhandle1 : IsWord l.handle1) (hhandle2 : IsWord l.handle2) : Readable depth (ofLink l) := by
  have hpair : ∀ v ∈ l.vars, Readable (depth + 2) (array [ofText v.1, ofText v.2]) := by
    intro v hv
    have htext : ∀ t ∈ [v.1, v.2], Readable (depth + 3) (ofText t) := fun t ht =>
      .text (htexts t (List.mem_flatMap.mpr ⟨v, hv, ht⟩))
    exact @readable_array _ _ [v.1, v.2] ofText hdepth (show 2 ≤ maxCount by decide) htext
  exact Fields.readable_map ((((Fields.required (by decide) (readable_ofInt hhandle1)).append
    (.required (by decide) (readable_ofInt hhandle2))).append
    (.optional (by decide) fun _ => readable_array (by omega) hcount hpair)).append
    (.optional (by decide) fun _ => readable_flags l.flags)) (by decide) (by omega)

theorem readable_class {depth : Nat} (hdepth : depth + 4 < maxDepth) {p : Prototype}
    (h : WithinLimits p) : Readable depth (ofClass p) := by
  have htexts : ∀ t, t ∈ writtenTexts p → t.length < twoTo 64 := h.texts
  simp only [mem_writtenTexts] at htexts
  have hname : p.name.length < twoTo 64 := htexts _ (.inl rfl)
  have hvars : ∀ v ∈ p.vars, Readable (depth + 2) (ofVar v) := fun v hv =>
    readable_var (by omega) (htexts _ (.inr (.inl ⟨v, hv, by simp⟩)))
      (htexts _ (.inr (.inl ⟨v, hv, by simp⟩)))
  have hchildren : ∀ c ∈ p.children, Readable (depth + 2) (ofChild c) := fun c hc =>
    readable_child (by omega) (htexts _ (.inr (.inr (.inl ⟨c, hc, by simp⟩))))
      (htexts _ (.inr (.inr (.inl ⟨c, hc, by simp⟩)))) (h.childHandles c hc)
  have hlinks : ∀ l ∈ p.links, Readable (depth + 2) (ofLink l) := fun l hl =>
    readable_link (by omega) (h.joined l hl)
      (fun t ht => htexts t (.inr (.inr (.inr (.inl ⟨l, hl, ht⟩)))))
      (h.linkHandles l hl).1 (h.linkHandles l hl).2
  have hliterals : (p.program.isEmpty || p.program.strings.isEmpty) = false →
      Readable (depth + 1) (array (p.program.strings.toList.map ofText)) := by
    intro hsome
    have hcode : p.program.isEmpty = false := (Bool.or_eq_false_iff.mp hsome).1
    exact readable_array (by omega) (h.literals hcode)
      fun t ht => .text (htexts t (.inr (.inr (.inr (.inr ⟨hcode, ht⟩)))))
  exact Fields.readable_map (((((((Fields.required (by decide) (.text hname)).append
    (.optional (by decide) fun _ => readable_array (by omega) h.vars hvars)).append
    (.optional (by decide) fun _ => readable_array (by omega) h.children hchildren)).append
    (.optional (by decide) fun _ => readable_array (by omega) h.links hlinks)).append
    (.optional (by decide) fun _ => .bytes h.code)).append
    (.optional (by decide) hliterals)).append
    (.optional (by decide) fun _ => .bytes h.scheme)) (by decide) (by omega)

/-- **Within the limits, the item of a library can be read.** -/
theorem readable_ofClasses {ps : List Prototype} (hcount : ps.length ≤ maxCount)
    (h : ∀ p ∈ ps, WithinLimits p) : Readable 0 (ofClasses ps) := by
  have hclasses : ∀ p ∈ ps, Readable 2 (ofClass p) := fun p hp =>
    readable_class (by decide) (h p hp)
  exact Fields.readable_map ((Fields.required (by decide) (.unsigned (by decide))).append
    (.required (by decide) (readable_array (by decide) hcount hclasses))) (by decide) (by decide)

/-! ### Checks -/

/-- Whether a class passes the checks of the reader: it has a name and its types exist. -/
def Checked (p : Prototype) : Prop :=
  p.name ≠ [] ∧ ∀ v ∈ p.vars, v.type.code ≤ VarType.string.code

theorem check_eq_ok {p q : Prototype} : check p = .ok q ↔ Checked p ∧ q = p := by
  unfold check Checked
  split
  · rename_i hname
    simp [List.isEmpty_iff.mp hname]
  · rename_i hname
    have hname' : p.name ≠ [] := by simpa using hname
    split
    · rename_i v hfind
      have hmem := List.mem_of_find?_eq_some hfind
      have hunknown : v.type.isKnown = false := by simpa using List.find?_some hfind
      refine ⟨nofun, fun h => ?_⟩
      have hknown : v.type.isKnown = true := decide_eq_true (h.1.2 v hmem)
      rw [hunknown] at hknown
      cases hknown
    · rename_i hfind
      have hknown : ∀ v ∈ p.vars, v.type.code ≤ VarType.string.code := by
        intro v hv
        have hv' : v.type.isKnown = true := by simpa using List.find?_eq_none.mp hfind v hv
        exact of_decide_eq_true hv'
      rw [Except.ok.injEq, eq_comm]
      exact ⟨fun h => ⟨⟨hname', hknown⟩, h⟩, fun h => h.2⟩

theorem bind_eq_ok {α β : Type} {x : Except Error α} {f : α → Except Error β} {b : β} :
    x >>= f = .ok b ↔ ∃ a, x = .ok a ∧ f a = .ok b := by
  cases x <;> simp [bind, Except.bind]

theorem mapM_check_eq_ok {ps qs : List Prototype} :
    ps.mapM check = .ok qs ↔ (∀ p ∈ ps, Checked p) ∧ qs = ps := by
  induction ps generalizing qs with
  | nil => simp [pure, Except.pure, eq_comm]
  | cons p ps ih =>
    rw [List.mapM_cons, List.forall_mem_cons]
    simp only [bind_eq_ok, check_eq_ok, ih]
    constructor
    · rintro ⟨_, ⟨hp, rfl⟩, _, ⟨hps, rfl⟩, hqs⟩
      exact ⟨⟨hp, hps⟩, (Except.ok.inj hqs).symm⟩
    · rintro ⟨⟨hp, hps⟩, rfl⟩
      exact ⟨p, ⟨hp, rfl⟩, ps, ⟨hps, rfl⟩, rfl⟩

/-- What is not kept is not checked. -/
theorem forall_checked_recovered {ps : List Prototype} :
    (∀ q ∈ ps.map recovered, Checked q) ↔ ∀ p ∈ ps, Checked p :=
  List.forall_mem_map

/-- The classes of a library that was written: all of them if the texts are UTF-8 and the checks
pass. -/
theorem decode_encode_eq_ok {ps qs : List Prototype} (hcount : ps.length ≤ maxCount)
    (h : ∀ p ∈ ps, WithinLimits p) :
    decode (encode ps) = .ok qs ↔
      ((∀ p ∈ ps, ∀ t ∈ writtenTexts p, t.isUtf8) ∧ ∀ p ∈ ps, Checked p) ∧
        qs = ps.map recovered := by
  have hlibrary := yields_library h
  have htexts : (ps.flatMap writtenTexts).all Text.isUtf8 = true ↔
      ∀ p ∈ ps, ∀ t ∈ writtenTexts p, t.isUtf8 := by
    simp only [List.all_eq_true, List.mem_flatMap]
    exact ⟨fun h p hp t ht => h t ⟨p, hp, ht⟩, fun h t ⟨p, hp, ht⟩ => h p hp t ht⟩
  unfold decode encode
  rw [parse?_encode (readable_ofClasses hcount h), Option.bind_some, hlibrary, ← htexts]
  by_cases hutf8 : (ps.flatMap writtenTexts).all Text.isUtf8
  · simp only [hutf8, if_true, true_and, ne_eq, not_true_eq_false, if_false]
    rw [mapM_check_eq_ok, forall_checked_recovered]
  · simp [hutf8]

/-- **A library is read again exactly when every class has a name, every type exists and every
text is UTF-8**, and then with the same classes, up to what is not kept. -/
theorem decode_encode {ps : List Prototype} (hcount : ps.length ≤ maxCount)
    (h : ∀ p ∈ ps, WithinLimits p) :
    ((∃ qs, decode (encode ps) = .ok qs) ↔
      ∀ p ∈ ps, p.name ≠ [] ∧ (∀ v ∈ p.vars, v.type.code ≤ VarType.string.code) ∧
        ∀ t ∈ writtenTexts p, t.isUtf8) ∧
    ∀ qs, decode (encode ps) = .ok qs → qs = ps.map recovered := by
  simp only [decode_encode_eq_ok hcount h]
  refine ⟨⟨?_, ?_⟩, fun qs hqs => hqs.2⟩
  · rintro ⟨_, ⟨htexts, hchecked⟩, -⟩ p hp
    exact ⟨(hchecked p hp).1, (hchecked p hp).2, htexts p hp⟩
  · intro hall
    exact ⟨_, ⟨fun p hp => (hall p hp).2.2, fun p hp => ⟨(hall p hp).1, (hall p hp).2.1⟩⟩, rfl⟩

/-- A class with something in every field. -/
def lamp : Prototype where
  name := "Lamp"
  vars := [{ name := "on", type := .float, dflt := "1" }]
  children := [{ className := "Bulb", handle := -2, x := -0.0, y := 1.5 }]
  links := [{ handle1 := 0, handle2 := -2, vars := [("on", "lit")], flags := 1 }]
  code := some ⟨#[2, 0, 0], #["x"]⟩
  scheme := [7]
  dir := "lib"

theorem withinLimits_lamp : WithinLimits lamp where
  vars := by decide
  children := by decide
  links := by decide
  joined := by decide
  literals := by decide
  texts := by decide +kernel
  code := by decide
  scheme := by decide
  childHandles := by decide
  linkHandles := by decide

theorem decode_encode_lamp : decode (encode [lamp]) = .ok [recovered lamp] := by
  obtain ⟨hiff, hsame⟩ := @decode_encode [lamp] (by decide)
    (List.forall_mem_singleton.mpr withinLimits_lamp)
  obtain ⟨qs, hqs⟩ := hiff.mpr (by decide +kernel)
  rw [hqs, hsame qs hqs]
  rfl

end SchemePlayer.Compiled
