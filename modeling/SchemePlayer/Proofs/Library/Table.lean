import Mathlib.Data.List.Nodup
import Mathlib.Data.List.Perm.Basic
import SchemePlayer.Class.Table
import SchemePlayer.Library.Basic

/-!
# Names of classes in tables

A class stands in a table under the lower-case form of its name, whichever way the table was filled:
class by class, where a later one takes the place of an earlier one of the same name, or from a
library, which refuses such a class.

- `ClassTable.Keyed`: the keys are the lower-case forms of the names, no two of them equal.
- `ClassTable.Filled`, `Library.Filled`: the ways to fill a table and a library.
- `Filled.keyed`: **both lead to keyed tables.**
- `Keyed.find?_eq_some_iff`: what a keyed table finds under a name.
-/

namespace SchemePlayer

/-- Among distinct keys there is one value to each. -/
theorem lookup_eq_some_iff_mem {α β : Type} [BEq α] [LawfulBEq α] {l : List (α × β)}
    (h : (l.map (·.1)).Nodup) {key : α} {x : β} : l.lookup key = some x ↔ (key, x) ∈ l := by
  constructor
  · intro hlookup
    obtain ⟨before, after, rfl, -⟩ := List.lookup_eq_some_iff.mp hlookup
    exact List.mem_append_right before List.mem_cons_self
  · intro hmem
    obtain ⟨before, after, rfl⟩ := List.append_of_mem hmem
    rw [List.map_append, List.map_cons] at h
    refine List.lookup_eq_some_iff.mpr ⟨before, after, rfl, fun e he => ?_⟩
    have hdistinct := (List.nodup_append.mp h).2.2 e.1 (List.mem_map_of_mem he) key
      List.mem_cons_self
    exact bne_iff_ne.mpr hdistinct.symm

namespace ClassTable

/-- Every class stands under the lower-case form of its name, and no two stand under one. -/
structure Keyed (classes : ClassTable) : Prop where
  keys : ∀ e ∈ classes.entries, e.1 = Text.lower e.2.name
  distinct : (classes.entries.map (·.1)).Nodup

variable {classes : ClassTable}

/-- **What a keyed table finds under a name**: its class whose name has the same lower-case form. -/
theorem Keyed.find?_eq_some_iff (h : classes.Keyed) {name : Text} {p : Prototype} :
    classes.find? name = some p ↔
      p ∈ classes.entries.map (·.2) ∧ Text.lower p.name = Text.lower name := by
  rw [find?, lookup_eq_some_iff_mem h.distinct]
  constructor
  · intro hmem
    exact ⟨List.mem_map.mpr ⟨_, hmem, rfl⟩, (h.keys _ hmem).symm⟩
  · rintro ⟨hp, hname⟩
    obtain ⟨e, he, rfl⟩ := List.mem_map.mp hp
    rw [← hname, ← h.keys e he]
    exact he

theorem keyed_empty : Keyed {} := by
  constructor
  · intro e he
    cases he
  · exact List.nodup_nil

/-- A new class takes the place of one with the same name. -/
theorem Keyed.add (h : classes.Keyed) (p : Prototype) : (classes.add p).Keyed := by
  constructor
  · intro e he
    rcases List.mem_append.mp he with hold | hnew
    · exact h.keys e (List.mem_filter.mp hold).1
    · rw [List.mem_singleton.mp hnew]
  · show ((classes.entries.filter _ ++ [_]).map _).Nodup
    rw [List.map_append, List.nodup_append]
    refine ⟨h.distinct.sublist (List.filter_sublist.map _), List.nodup_singleton _, ?_⟩
    rintro key hkey key' hkey' rfl
    obtain ⟨e, he, rfl⟩ := List.mem_map.mp hkey
    have hother := of_decide_eq_true (List.mem_filter.mp he).2
    exact hother (List.mem_singleton.mp hkey')

end ClassTable

namespace Library

/-- The keys of the classes, in the order in which they came. -/
def keys (l : Library) : List Text := l.entries.map (·.1)

/-- The key of a class. -/
def key (e : LibraryEntry) : Text := Text.lower e.proto.name

/-- A library with classes added to it, whatever their names. -/
def extend (l : Library) (es : List LibraryEntry) : Library :=
  ⟨l.entries ++ es.map fun e => (key e, e)⟩

/-- Every class stands under its key, and no two stand under one. -/
structure Keyed (l : Library) : Prop where
  keys : ∀ e ∈ l.entries, e.1 = key e.2
  distinct : l.keys.Nodup

variable {l : Library}

@[simp]
theorem extend_nil (l : Library) : l.extend [] = l := by
  rw [extend, List.map_nil, List.append_nil]

theorem extend_append (l : Library) (es es' : List LibraryEntry) :
    l.extend (es ++ es') = (l.extend es).extend es' := by
  rw [extend, extend, extend, List.map_append, List.append_assoc]

theorem keys_extend (l : Library) (es : List LibraryEntry) :
    (l.extend es).keys = l.keys ++ es.map key := by
  rw [keys, keys, extend, List.map_append, List.map_map]
  rfl

/-- There is no class under a name that is not among the keys. -/
theorem entry?_eq_none_iff {name : Text} : l.entry? name = none ↔ Text.lower name ∉ l.keys := by
  rw [ entry?, List.lookup_eq_none_iff, keys, List.mem_map]
  constructor
  · rintro h ⟨e, he, hkey⟩
    exact absurd hkey.symm (bne_iff_ne.mp (h e he))
  · intro h e he
    exact bne_iff_ne.mpr fun hkey => h ⟨e, he, hkey.symm⟩

/-- **A class is added if its key is new.** -/
theorem add_eq_ok_iff {p : Prototype} {origin : Text} {l' : Library} :
    l.add p origin = .ok l' ↔ Text.lower p.name ∉ l.keys ∧ l' = l.extend [⟨p, origin⟩] := by
  rw [← entry?_eq_none_iff, add]
  cases l.entry? p.name with
  | none =>
    constructor
    · intro h
      exact ⟨rfl, (Except.ok.inj h).symm⟩
    · rintro ⟨-, rfl⟩
      rfl
  | some e => exact ⟨nofun, nofun⟩

theorem keyed_empty : Keyed {} := by
  constructor
  · intro e he
    cases he
  · exact List.nodup_nil

/-- A library stays keyed if only new keys come to it. -/
theorem Keyed.extend (h : l.Keyed) {es : List LibraryEntry} (hdistinct : (l.extend es).keys.Nodup) :
    (l.extend es).Keyed := by
  refine ⟨fun e he => ?_, hdistinct⟩
  rcases List.mem_append.mp he with hold | hnew
  · exact h.keys e hold
  · obtain ⟨new, -, rfl⟩ := List.mem_map.mp hnew
    rfl

theorem Keyed.add (h : l.Keyed) {p : Prototype} {origin : Text} {l' : Library}
    (hadd : l.add p origin = .ok l') : l'.Keyed := by
  obtain ⟨hfresh, rfl⟩ := add_eq_ok_iff.mp hadd
  refine h.extend ?_
  rw [keys_extend, List.map_singleton, List.nodup_append]
  refine ⟨h.distinct, List.nodup_singleton _, ?_⟩
  rintro k hk k' hk' rfl
  rw [List.mem_singleton.mp hk'] at hk
  exact hfresh hk

/-- The table of a keyed library is keyed. -/
theorem Keyed.table (h : l.Keyed) : l.table.Keyed := by
  constructor
  · intro e he
    obtain ⟨e', he', rfl⟩ := List.mem_map.mp he
    exact h.keys e' he'
  · show ((l.entries.map _).map _).Nodup
    rw [List.map_map]
    exact h.distinct

/-- A library into which classes came one by one. -/
inductive Filled : Library → Prop
  | empty : Filled {}
  | add {l l' : Library} {p : Prototype} {origin : Text} :
      Filled l → l.add p origin = .ok l' → Filled l'

theorem Filled.keyed (h : l.Filled) : l.Keyed := by
  induction h with
  | empty => exact keyed_empty
  | add _ hadd ih => exact ih.add hadd

end Library

namespace ClassTable

/-- A table that was filled class by class, or is that of such a library. -/
inductive Filled : ClassTable → Prop
  | empty : Filled {}
  | add {classes : ClassTable} (p : Prototype) : Filled classes → Filled (classes.add p)
  | ofLibrary {l : Library} : l.Filled → Filled l.table

/-- **However it was filled, a table is keyed.** -/
theorem Filled.keyed {classes : ClassTable} (h : classes.Filled) : classes.Keyed := by
  induction h with
  | empty => exact keyed_empty
  | add p _ ih => exact ih.add p
  | ofLibrary hl => exact hl.keyed.table

theorem filled_ofList (ps : List Prototype) : (ofList ps).Filled := by
  have hfill : ∀ classes : ClassTable, classes.Filled →
      (ps.foldl ClassTable.add classes).Filled := by
    induction ps with
    | nil => exact fun _ h => h
    | cons p ps ih => exact fun classes h => ih _ (.add p h)
  exact hfill {} .empty

end ClassTable

end SchemePlayer
