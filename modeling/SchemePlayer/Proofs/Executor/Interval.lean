import SchemePlayer.Cli.Basic
import SchemePlayer.Executor.Pace
import SchemePlayer.Proofs.Store.Snapshot
import SchemePlayer.Service.Request

/-!
# The interval of a frame pace

A rate comes from a request to open a project, from a manifest or from the command line, and nothing
bounds it from above. The interval of a frame is a second divided by it, in whole nanoseconds. Above
a thousand million frames per second nothing is left of it, and a clock cannot tick in no time.

- `AskedByRequest`, `AskedByCommand`: the names and rates that a pace is asked for by.
- `askedByRequest_of_bounds`, `askedByCommand_of_pos`: every rate of 64 bits can come in a request,
  and every positive one from the command line.
- `interval_pos_iff`: **the interval is positive exactly for rates up to a thousand million.**
-/

namespace SchemePlayer

namespace Pace

/-- A request to open a project asks for a pace. It also names a class, without which it is refused
before. -/
def AskedByRequest (name : Text) (rate : Int) : Prop :=
  ∃ body record project root restore strict, Json.parse? body = some record ∧
    Request.decode? .open body = some (.open project root restore strict) ∧ root ≠ [] ∧
    record.field? "executor" [] Json.asText? = some name ∧
    record.field? "fps" 0 Json.asInt? = some rate

/-- Nothing keeps a project from being played as a manifest has it: its classes can be read, and its
snapshots where it has any use for them. -/
def Playable (files : Files) (m : Manifest) : Prop :=
  (Library.load files m.dir m.classPaths).isOk = true ∧
    ((m.load || m.save) = true → (SnapshotStore.openAt files m.statePath).isOk = true)

instance (files : Files) (m : Manifest) : Decidable (Playable files m) :=
  inferInstanceAs (Decidable (_ ∧ _))

/-- The arguments of the program, and the manifest that it finds, make it play a project and ask for
a pace. -/
def AskedByCommand (files : Files) (args : List Text) (name : Text) (rate : Int) : Prop :=
  ∃ flags rest m, Flags.parse Cli.playFlags args = .ok (flags, rest) ∧
    Cli.manifestFor files (flags.text "dir" ".") = .ok m ∧ flags.isSet "serve" = false ∧
    Playable files (Cli.override m flags) ∧
    (Cli.override m flags).executor = name ∧ (Cli.override m flags).rate = rate

/-! ### Rates that can be asked for -/

/-- A request that asks for a pace, and has nothing else but the class that it must have. -/
def paceRecord (name : Text) (rate : Int) : Json :=
  .obj [("root", .str "Main"), ("executor", .str name), ("fps", .int rate)]

theorem readable_paceRecord {name : Text} (hname : Text.isUtf8 name = true) (rate : Int) :
    Json.Readable 0 (paceRecord name rate) := by
  refine .obj (by decide) ?_ ?_
  · simp only [List.forall_mem_cons]
    decide +kernel
  · simp only [List.forall_mem_cons]
    exact ⟨.str (by decide +kernel), .str hname, .int rate, fun _ h => nomatch h⟩

/-- What it says, field by field. -/
theorem named_paceRecord (name : Text) (rate : Int) :
    (∀ other ∈ (["name", "strict", "restoreState"] : List Text),
      (paceRecord name rate).named other = []) ∧
    (paceRecord name rate).named "root" = [.str "Main"] ∧
    (paceRecord name rate).named "executor" = [.str name] ∧
    (paceRecord name rate).named "fps" = [.int rate] := by
  have hother : ∀ other ∈ (["name", "strict", "restoreState"] : List Text),
      ∀ own ∈ (["root", "executor", "fps"] : List Text), Text.equalFold own other = false := by
    decide +kernel
  have hroot : Text.equalFold "executor" "root" = false ∧ Text.equalFold "fps" "root" = false := by
    decide +kernel
  have hexecutor : Text.equalFold "root" "executor" = false ∧
      Text.equalFold "fps" "executor" = false := by
    decide +kernel
  have hrate : Text.equalFold "root" "fps" = false ∧ Text.equalFold "executor" "fps" = false := by
    decide +kernel
  refine ⟨fun other hmem => ?_, ?_, ?_, ?_⟩
  · simp [paceRecord, Json.named, hother other hmem]
  · simp [paceRecord, Json.named, hroot, Text.equalFold_refl]
  · simp [paceRecord, Json.named, hexecutor, Text.equalFold_refl]
  · simp [paceRecord, Json.named, hrate, Text.equalFold_refl]

/-- **Any rate of 64 bits can come in a request.** -/
theorem askedByRequest_of_bounds {name : Text} (hname : Text.isUtf8 name = true) {rate : Int}
    (hlow : -(twoTo 63) ≤ rate) (hhigh : rate < twoTo 63) : AskedByRequest name rate := by
  have hreadable := readable_paceRecord hname rate
  obtain ⟨hother, hroot, hexecutor, hrate⟩ := named_paceRecord name rate
  simp only [List.forall_mem_cons] at hother
  obtain ⟨hproject, hstrict, hrestore, -⟩ := hother
  have hmissing : ∀ {other : Text} {α : Type} (missing : α) (read : Json → Option (Option α)),
      (paceRecord name rate).named other = [] →
        (paceRecord name rate).field? other missing read = some missing := by
    intro other α missing read hnone
    rw [Json.field?, hnone]
    rfl
  have hreadRoot : (paceRecord name rate).field? "root" [] Json.asText? =
      some ("Main" : Text) := by
    rw [Json.field?, hroot]
    rfl
  have hreadName : (paceRecord name rate).field? "executor" [] Json.asText? = some name := by
    rw [Json.field?, hexecutor]
    rfl
  have hreadRate : (paceRecord name rate).field? "fps" 0 Json.asInt? = some rate := by
    rw [Json.field?, hrate, List.foldlM_cons, Json.asInt?_int hlow hhigh]
    rfl
  have hbody : (paceRecord name rate).render ≠ [] := by
    obtain ⟨b, t, hcons, -⟩ := hreadable.render_eq_cons
    simp [hcons]
  have hrecord : (paceRecord name rate).isRecord = true := rfl
  refine ⟨(paceRecord name rate).render, paceRecord name rate, [], "Main", false, false,
    Json.parse?_render hreadable, ?_, by decide, hreadName, hreadRate⟩
  rw [Request.decode?, if_neg hbody, Json.parse?_render hreadable]
  dsimp only
  rw [if_pos hrecord]
  unfold Request.ofRecord?
  dsimp only
  rw [hmissing _ _ hproject, hreadRoot, hreadName, hreadRate, hmissing _ _ hstrict,
    hmissing _ _ hrestore]
  rfl

/-- A directory that has a class to play. -/
def mainFiles : Files := ({} : Files).plant "/classes/main.yaml" "name: Main\n"

/-- **Any positive one can come from the command line.** -/
theorem askedByCommand_of_pos {rate : Int} (hpos : 0 < rate) (hhigh : rate < twoTo 63) :
    AskedByCommand mainFiles ["-fps", Text.ofInt rate] "smooth" rate := by
  have hlow : -(twoTo 63) ≤ rate := by
    have : (0 : Int) ≤ twoTo 63 := Int.natCast_nonneg _
    omega
  have hfind : Cli.playFlags.find? (·.name = ("fps" : Text)) =
      some ⟨"fps", .int 0, "Ticks per second for the smooth scheduler"⟩ := by decide +kernel
  have hbody : Flags.body? "-fps" = some ("fps" : Text) := by decide +kernel
  have hsplit : Flags.split "fps" = (("fps" : Text), (none : Option Text)) := by decide +kernel
  have hparse : Flags.parse Cli.playFlags ["-fps", Text.ofInt rate] =
      .ok ([("fps", .int rate)], []) := by
    rw [Flags.parse, Flags.parseFrom, if_neg (by decide +kernel), hbody]
    dsimp only
    rw [if_neg (by decide +kernel), hsplit]
    dsimp only
    rw [hfind]
    dsimp only
    rw [Flags.value]
    dsimp only
    rw [Reading.integer?_ofInt hlow hhigh]
    rfl
  -- no other flag is set
  have hunset : ∀ other ∈ (["dir", "executor", "root", "steps", "strict", "no-state", "serve"] :
      List Text), List.lookup other [("fps", FlagValue.int rate)] = none := by
    have hapart : ∀ other ∈ (["dir", "executor", "root", "steps", "strict", "no-state", "serve"] :
        List Text), (other == "fps") = false := by
      decide +kernel
    intro other hmem
    rw [List.lookup_cons, hapart other hmem]
    rfl
  simp only [List.forall_mem_cons] at hunset
  obtain ⟨hdir, hexecutor, hroot, hsteps, hstrict, hstateless, hserve, -⟩ := hunset
  have hoverride : Cli.override (Manifest.usual [47]) [("fps", .int rate)] =
      { Manifest.usual [47] with rate } := by
    unfold Cli.override Flags.text Flags.int Flags.isSet
    rw [hexecutor, hroot, hsteps, hstrict, hstateless, List.lookup_cons_self]
    dsimp only
    rw [if_pos hpos]
    rfl
  refine ⟨_, _, Manifest.usual [47], hparse, ?_, ?_, ?_⟩
  · rw [Flags.text, hdir]
    decide +kernel
  · rw [Flags.isSet, hserve]
  · have hplayable : Playable mainFiles (Manifest.usual [47]) := by decide +kernel
    have hsmooth : (Manifest.usual [47]).executor = "smooth" := by decide +kernel
    rw [hoverride]
    exact ⟨hplayable, hsmooth, rfl⟩

/-! ### Intervals -/

/-- **The interval of a frame is positive exactly for rates up to a thousand million**, the usual
rate standing for those that are not positive. Any rate of 64 bits can come in a request to open a
project, and any positive one from the command line. -/
theorem interval_pos_iff (name : Text) (rate : Int) :
    ((∀ interval, ofName name rate = .smooth interval → 0 < interval) ↔
      name = "fastest" ∨ rate ≤ 1000000000) ∧
    (-(twoTo 63) ≤ rate → rate < twoTo 63 → AskedByRequest "smooth" rate ∧
      (0 < rate → AskedByCommand mainFiles ["-fps", Text.ofInt rate] "smooth" rate)) := by
  refine ⟨?_, fun hlow hhigh => ⟨askedByRequest_of_bounds (by decide +kernel) hlow hhigh,
    fun hpos => askedByCommand_of_pos hpos hhigh⟩⟩
  rw [ofName]
  by_cases hname : name = "fastest"
  · rw [if_pos hname]
    exact ⟨fun _ => .inl hname, fun _ interval heq => (nomatch heq)⟩
  · rw [if_neg hname, ofRate]
    have hrate : 0 < (if rate ≤ 0 then usualRate else rate.toNat) := by
      split
      · decide
      · omega
    have hsecond : (0 < 1000000000 / (if rate ≤ 0 then usualRate else rate.toNat)) ↔
        rate ≤ 1000000000 := by
      rw [Nat.div_pos_iff, and_iff_right hrate]
      split
      · exact iff_of_true (by decide) (by omega)
      · omega
    constructor
    · intro hall
      exact .inr (hsecond.mp (hall _ rfl))
    · rintro (hfast | hle) interval heq
      · exact absurd hfast hname
      · cases heq
        exact hsecond.mpr hle

/-- Fifty frames per second take twenty milliseconds each, and can be asked for in both ways. -/
theorem interval_pos_fifty :
    AskedByRequest "smooth" 50 ∧ AskedByCommand mainFiles ["-fps", "50"] "smooth" 50 ∧
      ofName "smooth" 50 = .smooth 20000000 ∧ 0 < 20000000 := by
  have hpace : ofName "smooth" 50 = .smooth 20000000 := by decide +kernel
  have hargument : Text.ofInt 50 = "50" := by decide +kernel
  obtain ⟨hpos, hasked⟩ := interval_pos_iff "smooth" 50
  obtain ⟨hrequest, hcommand⟩ := hasked (by decide) (by decide)
  exact ⟨hrequest, hargument ▸ hcommand (by decide), hpace, hpos.mpr (.inr (by decide)) _ hpace⟩

/-- A directory with a class to play, and a manifest that asks for two thousand million frames per
second. -/
def hastyFiles : Files := mainFiles.plant "/stratum.toml" "[run]\nfps = 2000000000\n"

/-- **Nothing is left of a frame where there are two thousand million in a second**, and a request,
the command line and a manifest can all ask for that. -/
theorem interval_zero_hasty :
    AskedByRequest "smooth" 2000000000 ∧
      AskedByCommand mainFiles ["-fps", "2000000000"] "smooth" 2000000000 ∧
      AskedByCommand hastyFiles [] "smooth" 2000000000 ∧
      ofName "smooth" 2000000000 = .smooth 0 := by
  have hargument : Text.ofInt 2000000000 = "2000000000" := by decide +kernel
  refine ⟨askedByRequest_of_bounds (by decide +kernel) (by decide) (by decide),
    hargument ▸ askedByCommand_of_pos (by decide) (by decide), ?_, by decide +kernel⟩
  exact ⟨[], [], { Manifest.usual [47] with rate := 2000000000 }, by decide +kernel,
    by decide +kernel, by decide +kernel, by decide +kernel, by decide +kernel, by decide +kernel⟩

end Pace

end SchemePlayer
