import Mathlib.Data.List.Induction
import SchemePlayer.Proofs.Host.Sharing
import SchemePlayer.Proofs.Library.Table

/-!
# Streams in the hands of their holders

Whoever has opened a stream keeps it, and goes on using it when it is closed, or when the host has
closed it because its project was released. A stream on a file is then one in memory: what is
written to it is reported as written, and reaches no file.

- `Held`: a stream in the hands of its holder, next to the host that knows it by a handle.
- `Held.Live`, `Live.act`: what holds as long as a stream is open, and what one call keeps of it.
- `Live.write`, `write_of_closed`: where the bytes of a write go, before and after.
- `file_stream_kept_iff`: **a stream on a file does what is expected of it exactly as long as
  nothing is written to it, and not nothing read from it, once it was closed.**
-/

namespace SchemePlayer

/-- What is done with a stream, by its holder or, when a project is released, by the host. -/
inductive StreamCall where
  | write (bytes : Text)
  | read (count : Nat)
  | close
  | release (project : Nat)
  deriving DecidableEq

/-- A stream in the hands of its holder, and the host that knows it by a handle. -/
structure Held where
  host : Headless
  handle : Nat
  stream : Stream

namespace Held

/-- The host has a stream as its holder leaves it. -/
def used (h : Held) (stream : Stream) (files : Files) : Held :=
  { h with
    host := { h.host with files, registry := h.host.registry.setStream h.handle stream }
    stream }

/-- What the file tree and the stream are after a call. -/
def act (h : Held) : StreamCall → Held
  | .write bytes =>
    let (_, stream, files) := h.stream.write h.host.files bytes
    h.used stream files
  | .read count => h.used (h.stream.read h.host.files count).2 h.host.files
  | .close => h.used h.stream.close h.host.files
  | .release project =>
    let host := h.host.release project
    -- what the host has let go of, it has closed
    { h with
      host
      stream := if (host.registry.stream? h.handle).isSome then h.stream else h.stream.close }

/-- The same after some calls. -/
def acts (h : Held) (cs : List StreamCall) : Held := cs.foldl act h

theorem acts_append (h : Held) (cs : List StreamCall) (c : StreamCall) :
    h.acts (cs ++ [c]) = (h.acts cs).act c := List.foldl_append

end Held

/-! ### Where bytes go -/

/-- The bytes are in a file, over others of that number or over those at its end. -/
def Wrote (place : Place) (bytes : Text) (fs fs' : Files) : Prop :=
  ∃ before old after, fs.node? place = some (.file (before ++ (old ++ after))) ∧
    (old.length = bytes.length ∨ after = [] ∧ old.length ≤ bytes.length) ∧
    fs'.node? place = some (.file (before ++ (bytes ++ after)))

theorem Files.node?_put {fs : Files} {p : Place} (hp : p ≠ []) (n : FileNode) :
    (fs.put p n).node? p = some n := by
  rw [put, if_neg hp, node?, if_neg hp, List.lookup_append]
  have hnone : (fs.nodes.filter (·.1 ≠ p)).lookup p = none := by
    rw [List.lookup_eq_none_iff]
    intro q hq
    have hne : q.1 ≠ p := of_decide_eq_true (List.mem_filter.mp hq).2
    exact bne_iff_ne.mpr hne.symm
  rw [hnone]
  simp

/-- **What an open file reports as written is in the file.** -/
theorem OpenFile.wrote {f f' : OpenFile} {fs fs' : Files} {bytes : Text} {n : Nat}
    (h : f.write fs bytes = (.ok n, f', fs')) :
    n = bytes.length ∧ f'.place = f.place ∧ Wrote f.place bytes fs fs' := by
  unfold write at h
  split at h
  · rename_i content hnode
    dsimp only at h
    split at h
    · cases h
    · obtain ⟨rfl, rfl, rfl⟩ : bytes.length = n ∧ _ = f' ∧ _ = fs' := by simpa using h
      have hplace : f.place ≠ [] := by
        intro hroot
        rw [hroot, Files.node?, if_pos rfl] at hnode
        cases hnode
      generalize (if f.mode.append = true then content.length else f.position) = start
      refine ⟨rfl, rfl, content.take start, (content.drop start).take bytes.length,
        (content.drop start).drop bytes.length, ?_, ?_, ?_⟩
      · rw [List.take_append_drop, List.take_append_drop]
        exact hnode
      · rw [List.length_take, List.length_drop, List.drop_drop, List.drop_eq_nil_iff]
        omega
      · rw [Files.node?_put hplace, List.drop_drop]
  · cases h

/-- A stream is opened on the file that its path leads to. -/
theorem Stream.openAs_file {fs fs' : Files} {path flags : Text} {place : Place} {s : Stream}
    (hplace : fs.locate path = .ok place) (h : Stream.openAs fs .file path flags = .ok (s, fs')) :
    (∃ f, s.file = some f ∧ f.place = place) ∧ s.buffer = [] := by
  unfold Stream.openAs Files.openAs at h
  rw [hplace] at h
  dsimp only at h
  split at h
  · rename_i f fs₁ hopen
    cases h
    refine ⟨⟨f, rfl, ?_⟩, rfl⟩
    split at hopen
    · split at hopen
      · cases hopen
      · cases hopen
        rfl
    · cases hopen
      rfl
    · split at hopen
      · cases hopen
        rfl
      · cases hopen
  · cases h

namespace Registry

/-- A stream that is used is found as it was left. -/
theorem lookup_setStream {r : Registry} {handle : Nat} {o : OwnedStream}
    (h : r.streams.lookup handle = some o) (stream : Stream) :
    (r.setStream handle stream).streams.lookup handle = some { o with stream } := by
  obtain ⟨before, after, hlist, hbefore⟩ := List.lookup_eq_some_iff.mp h
  simp only [setStream, hlist, List.map_append, List.map_cons, ↓reduceIte]
  refine List.lookup_eq_some_iff.mpr ⟨_, _, rfl, fun q hq => ?_⟩
  obtain ⟨p, hp, rfl⟩ := List.mem_map.mp hq
  have hne := hbefore p hp
  split
  · rename_i heq
    rw [heq] at hne
    simp at hne
  · exact hne

/-- Streams are told apart by their handles. -/
theorem Sound.lookup_iff {r : Registry} (hr : r.Sound) {handle : Nat} {o : OwnedStream} :
    r.streams.lookup handle = some o ↔ (handle, o) ∈ r.streams :=
  lookup_eq_some_iff_mem hr.keys

/-- A stream of a project that is released is not found any more. -/
theorem lookup_release {r : Registry} (hr : r.Sound) {handle : Nat} {o : OwnedStream}
    (h : r.streams.lookup handle = some o) :
    (r.release o.owner).streams.lookup handle = none := by
  have hsound : (r.release o.owner).Sound := (Change.release o.owner).sound hr
  refine Option.eq_none_iff_forall_ne_some.mpr fun o' h' => ?_
  obtain ⟨hmem, howner⟩ := List.mem_filter.mp (hsound.lookup_iff.mp h')
  obtain rfl : o = o' := Option.some.inj (h.symm.trans (hr.lookup_iff.mpr hmem))
  exact of_decide_eq_true howner rfl

end Registry

namespace Held

variable {project : Nat} {place : Place} {h : Held}

/-! ### A stream that is open -/

/-- The stream of a project is open on a file, and the host has it as its holder has it. -/
structure Live (project : Nat) (place : Place) (h : Held) : Prop where
  sound : h.host.registry.Sound
  registered : h.host.registry.streams.lookup h.handle = some ⟨project, h.stream⟩
  file : ∃ f, h.stream.file = some f ∧ f.place = place
  buffer : h.stream.buffer = []

/-- **What is reported as written to an open stream is in its file.** -/
theorem Live.write (hl : Live project place h) {bytes : Text} {n : Nat} {s : Stream} {fs : Files}
    (hwrite : h.stream.write h.host.files bytes = (.ok n, s, fs)) :
    n = bytes.length ∧ Wrote place bytes h.host.files fs := by
  obtain ⟨f, hfile, rfl⟩ := hl.file
  unfold Stream.write at hwrite
  rw [hfile] at hwrite
  dsimp only at hwrite
  cases hopen : f.write h.host.files bytes with
  | mk r rest =>
    obtain ⟨f', fs'⟩ := rest
    rw [hopen] at hwrite
    cases r with
    | error e => cases hwrite
    | ok k =>
      cases hwrite
      obtain ⟨hn, -, hwrote⟩ := OpenFile.wrote hopen
      exact ⟨hn, hwrote⟩

/-- An open file stays where it is, whatever a write reports. -/
theorem place_write (f : OpenFile) (fs : Files) (bytes : Text) :
    (f.write fs bytes).2.1.place = f.place := by
  unfold OpenFile.write
  split
  · dsimp only
    split <;> rfl
  · rfl

theorem place_read (f : OpenFile) (fs : Files) (count : Nat) :
    (f.read fs count).2.place = f.place := by
  unfold OpenFile.read
  split
  · dsimp only
    split <;> rfl
  · rfl

/-- To use an open stream leaves it open. -/
theorem Live.used (hl : Live project place h) {s : Stream} (files : Files)
    (hfile : ∃ f, s.file = some f ∧ f.place = place) (hbuffer : s.buffer = []) :
    Live project place (h.used s files) :=
  ⟨(Registry.Change.setStream h.handle s).sound hl.sound,
    Registry.lookup_setStream hl.registered s, hfile, hbuffer⟩

/-- The calls that close a stream of a project. -/
def Closes (project : Nat) (c : StreamCall) : Prop := c = .close ∨ c = .release project

/-- **A call that does not close an open stream leaves it open.** -/
theorem Live.act (hl : Live project place h) {c : StreamCall} (hc : ¬Closes project c) :
    Live project place (h.act c) := by
  obtain ⟨f, hfile, hplace⟩ := hl.file
  cases c with
  | write bytes =>
    have hstream : h.stream.write h.host.files bytes =
        (((f.write h.host.files bytes).1).mapError .file,
          { h.stream with file := some (f.write h.host.files bytes).2.1 },
          (f.write h.host.files bytes).2.2) := by
      rw [Stream.write, hfile]
    rw [Held.act, hstream]
    exact hl.used _ ⟨_, rfl, (place_write f _ _).trans hplace⟩ hl.buffer
  | read count =>
    have hstream : h.stream.read h.host.files count =
        ((f.read h.host.files count).1,
          { h.stream with file := some (f.read h.host.files count).2 }) := by
      rw [Stream.read, hfile]
    rw [Held.act, hstream]
    exact hl.used _ ⟨_, rfl, (place_read f _ _).trans hplace⟩ hl.buffer
  | close => exact absurd (.inl rfl) hc
  | release other =>
    have hother : project ≠ other := fun heq => hc (.inr (heq ▸ rfl))
    have hkept :=
      (Registry.keepsOthers_release h.host.registry other).streams _ _ hl.registered hother
    have hstays : ((h.host.release other).registry.stream? h.handle).isSome = true := by
      show (((h.host.registry.release other).streams.lookup h.handle).map (·.stream)).isSome = true
      rw [hkept]
      rfl
    rw [Held.act, if_pos hstays]
    exact ⟨(Registry.Change.release other).sound hl.sound, hkept, hl.file, hl.buffer⟩

/-- **A call that closes it does.** Nothing is in memory by then. -/
theorem Live.closed (hl : Live project place h) {c : StreamCall} (hc : Closes project c) :
    (h.act c).stream.file = none ∧ (h.act c).stream.buffer = [] := by
  rcases hc with rfl | rfl
  · exact ⟨rfl, hl.buffer⟩
  · have hgone : ((h.host.release project).registry.stream? h.handle).isSome = false := by
      show (((h.host.registry.release project).streams.lookup h.handle).map (·.stream)).isSome =
        false
      rw [Registry.lookup_release hl.sound hl.registered]
      rfl
    rw [Held.act, hgone]
    exact ⟨rfl, hl.buffer⟩

/-! ### A stream that is closed -/

/-- **What is written to a closed stream is reported as written, and reaches no file.** -/
theorem write_of_closed (hc : h.stream.file = none) (bytes : Text) :
    h.stream.write h.host.files bytes =
      (.ok bytes.length, { h.stream with file := none, buffer := h.stream.buffer ++ bytes },
        h.host.files) := by
  rw [Stream.write, hc]

/-- Where nothing was written to it since, nothing but nothing can be read from it. -/
theorem read_of_closed (hc : h.stream.file = none) (hbuffer : h.stream.buffer = []) (count : Nat) :
    (h.stream.read h.host.files count).1 = if count = 0 then .ok [] else .error .atEnd := by
  rw [Stream.read, hc, hbuffer]
  by_cases hcount : count = 0
  · rw [if_pos hcount]
    simp [hcount]
  · rw [if_neg hcount]
    simp [hcount]

/-- To read nothing from it is no error. -/
theorem read_nothing (hc : h.stream.file = none) : (h.stream.read h.host.files 0).1 = .ok [] := by
  rw [Stream.read, hc]
  rfl

/-- A closed stream stays closed. -/
theorem closed_act (hc : h.stream.file = none) (c : StreamCall) :
    (h.act c).stream.file = none := by
  cases c with
  | write bytes =>
    rw [act, write_of_closed hc]
    rfl
  | read count =>
    rw [act, Stream.read, hc]
    dsimp only [used]
    split
    · exact hc
    · rfl
  | close => rfl
  | release other =>
    rw [act]
    dsimp only
    split
    · exact hc
    · rfl

/-- And empty, until something is written to it. -/
theorem empty_act (hc : h.stream.file = none) (hbuffer : h.stream.buffer = []) {c : StreamCall}
    (hwrite : ∀ bytes, c ≠ .write bytes) : (h.act c).stream.buffer = [] := by
  cases c with
  | write bytes => exact absurd rfl (hwrite bytes)
  | read count =>
    rw [act, Stream.read, hc]
    dsimp only [used]
    split
    · exact hbuffer
    · rw [hbuffer, List.drop_nil]
  | close => exact hbuffer
  | release other =>
    rw [act]
    dsimp only
    split <;> exact hbuffer

/-! ### Any calls -/

/-- A stream that was just opened on a file for a project, and has the latest handle. Anything may
have happened to the host before. -/
inductive Opened (project : Nat) (place : Place) : Held → Prop where
  | intro {width height : Int} {files : Files} {es : List Headless.Event} {type path flags : Text}
    {v : Value} {host : Headless} {stream : Stream} :
    StreamType.parse? type = some .file →
    ((Headless.fresh width height files).happens es).files.locate path = .ok place →
    ((Headless.fresh width height files).happens es).openStream project type path flags =
      (.value v, host) →
    host.registry.stream? (Registry.handleOf host.registry.issued) = some stream →
    Opened project place ⟨host, Registry.handleOf host.registry.issued, stream⟩

/-- It is open. -/
theorem Opened.live (ho : Opened project place h) : Live project place h := by
  obtain @⟨width, height, files, es, type, path, flags, v, host, stream, htype, hplace, hopen,
    hstream⟩ := ho
  have hsound := (Headless.sound_happens (Headless.sound_fresh width height files) es).registry
  generalize (Headless.fresh width height files).happens es = start at hplace hopen hsound
  obtain ⟨⟨owner, found⟩, hfound, rfl⟩ := Option.map_eq_some_iff.mp hstream
  unfold Headless.openStream at hopen
  rw [htype] at hopen
  dsimp only at hopen
  cases hopened : Stream.openAs start.files .file path flags with
  | error e =>
    rw [hopened] at hopen
    cases hopen
  | ok opened =>
    obtain ⟨own, fs⟩ := opened
    rw [hopened] at hopen
    dsimp only at hopen
    cases hregistered : start.registry.openStream project own with
    | error e =>
      rw [hregistered] at hopen
      cases hopen
    | ok entered =>
      obtain ⟨handle, registry⟩ := entered
      rw [hregistered] at hopen
      cases hopen
      have hnext : registry.Sound := (Registry.Change.gain (.stream hregistered)).sound hsound
      have hown : (Registry.handleOf registry.issued, ⟨project, own⟩) ∈ registry.streams := by
        obtain ⟨-, -, rfl⟩ := Registry.openStream_eq_ok hregistered
        exact List.mem_append_cons_self
      obtain ⟨rfl, rfl⟩ : owner = project ∧ found = own := by
        have hsome := hnext.lookup_iff.mpr hown
        rw [hfound] at hsome
        simpa using hsome
      obtain ⟨hfile, hbuffer⟩ := Stream.openAs_file hplace hopened
      exact ⟨hnext, hfound, hfile, hbuffer⟩

/-- Whether some call was one that closes a stream of a project. -/
def Ended (project : Nat) (cs : List StreamCall) : Prop := ∃ c ∈ cs, Closes project c

theorem ended_append (cs : List StreamCall) (c : StreamCall) :
    Ended project (cs ++ [c]) ↔ Ended project cs ∨ Closes project c := by
  simp [Ended, or_and_right, exists_or]

/-- Nothing is written after a stream was closed. -/
def Silenced (project : Nat) (cs : List StreamCall) : Prop :=
  ∀ before bytes after, cs = before ++ .write bytes :: after → ¬Ended project before

theorem Silenced.before {cs : List StreamCall} {c : StreamCall}
    (hs : Silenced project (cs ++ [c])) :
    Silenced project cs ∧ (Ended project cs → ∀ bytes, c ≠ .write bytes) := by
  constructor
  · rintro before bytes after rfl
    exact hs before bytes (after ++ [c]) (by simp)
  · rintro hended bytes rfl
    exact hs cs bytes [] rfl hended

/-- **What a stream is after any calls**: open if none of them closed it, and closed if one did; and
if nothing was written to it then, there is nothing in memory. -/
theorem Live.acts (hl : Live project place h) (cs : List StreamCall) :
    (¬Ended project cs → Live project place (h.acts cs)) ∧
      (Ended project cs → (h.acts cs).stream.file = none) ∧
      (Ended project cs → Silenced project cs → (h.acts cs).stream.buffer = []) := by
  induction cs using List.reverseRecOn with
  | nil =>
    have hnone : ¬Ended project [] := fun ⟨_, hc, _⟩ => (nomatch hc)
    exact ⟨fun _ => hl, fun hended => absurd hended hnone, fun hended => absurd hended hnone⟩
  | append_singleton cs c ih =>
    obtain ⟨hlive, hclosed, hempty⟩ := ih
    rw [acts_append, ended_append]
    by_cases hbefore : Ended project cs
    · refine ⟨fun hnot => absurd (.inl hbefore) hnot, fun _ => closed_act (hclosed hbefore) c,
        fun _ hsilent => ?_⟩
      obtain ⟨hsilent, hwrite⟩ := hsilent.before
      exact empty_act (hclosed hbefore) (hempty hbefore hsilent) (hwrite hbefore)
    · by_cases hc : Closes project c
      · have hend := (hlive hbefore).closed hc
        exact ⟨fun hnot => absurd (.inr hc) hnot, fun _ => hend.1, fun _ _ => hend.2⟩
      · have hneither : ¬(Ended project cs ∨ Closes project c) := not_or.mpr ⟨hbefore, hc⟩
        exact ⟨fun _ => (hlive hbefore).act hc, fun hended => absurd hended hneither,
          fun hended => absurd hended hneither⟩

/-- What is expected of a call to a stream on a file: bytes that are reported as written are in the
file; and once the stream was closed, to write and to read are errors. -/
def Meets (place : Place) (ended : Prop) (h : Held) : StreamCall → Prop
  | .write bytes => ∀ n s fs, h.stream.write h.host.files bytes = (.ok n, s, fs) →
    n = bytes.length ∧ Wrote place bytes h.host.files fs ∧ ¬ended
  | .read count => ended → ∃ e, (h.stream.read h.host.files count).1 = .error e
  | .close | .release _ => True

/-- **A stream on a file does what is expected of it exactly as long as nothing is written to it,
and not nothing read from it, once it was closed.** Whichever calls come, by its holder or when its
project is released: until then all that is reported as written is in the file. After it everything
is reported as written and reaches no file. -/
theorem file_stream_kept_iff (ho : Opened project place h) (cs : List StreamCall) :
    ((∀ before c after, cs = before ++ c :: after →
        Meets place (Ended project before) (h.acts before) c) ↔
      ∀ before c after, cs = before ++ c :: after → Ended project before →
        (∀ bytes, c ≠ .write bytes) ∧ c ≠ .read 0) ∧
    ∀ before bytes, Ended project before →
      ∃ s, (h.acts before).stream.write (h.acts before).host.files bytes =
        (.ok bytes.length, s, (h.acts before).host.files) := by
  have hruns := fun before => ho.live.acts before
  refine ⟨⟨fun hmeets before c after hcs hended => ?_, fun hquiet before c after hcs => ?_⟩,
    fun before bytes hended => ⟨_, write_of_closed ((hruns before).2.1 hended) bytes⟩⟩
  · have hclosed := (hruns before).2.1 hended
    have hmeet := hmeets before c after hcs
    constructor
    · rintro bytes rfl
      exact (hmeet _ _ _ (write_of_closed hclosed bytes)).2.2 hended
    · rintro rfl
      obtain ⟨e, he⟩ := hmeet hended
      rw [read_nothing hclosed] at he
      cases he
  · obtain ⟨hlive, hclosed, hempty⟩ := hruns before
    cases c with
    | write bytes =>
      intro n s fs hwrite
      have hopen : ¬Ended project before := fun hended =>
        (hquiet before _ after hcs hended).1 bytes rfl
      obtain ⟨hn, hwrote⟩ := (hlive hopen).write hwrite
      exact ⟨hn, hwrote, hopen⟩
    | read count =>
      intro hended
      have hcount : count ≠ 0 := fun hzero => (hquiet before _ after hcs hended).2 (hzero ▸ rfl)
      have hsilent : Silenced project before := by
        rintro sooner bytes later rfl hsooner
        exact (hquiet sooner (.write bytes) (later ++ .read count :: after)
          (by rw [hcs]; simp) hsooner).1 bytes rfl
      refine ⟨.atEnd, ?_⟩
      rw [read_of_closed (hclosed hended) (hempty hended hsilent), if_neg hcount]
    | close => trivial
    | release other => trivial

/-- A host on which project 1 has opened a stream, on a file that is made for it. -/
def logHost : Headless :=
  ((Headless.fresh 800 600 {}).openStream 1 "FILE" "/log.txt" "CREATE|WRITE").2

/-- The stream. -/
def logStream : Held :=
  ⟨logHost, Registry.handleOf logHost.registry.issued,
    { type := .file, path := "/log.txt", file := some ⟨["log.txt"], ⟨true, true, false⟩, 0⟩ }⟩

theorem opened_logStream : Opened 1 ["log.txt"] logStream := by
  have hreply : ((Headless.fresh 800 600 {}).openStream 1 "FILE" "/log.txt" "CREATE|WRITE").1 =
      .value (Headless.handleValue 1) := by decide +kernel
  exact @Opened.intro 1 _ 800 600 {} [] "FILE" "/log.txt" "CREATE|WRITE" _ _ _ (by decide +kernel)
    (by decide +kernel) (Prod.ext hreply rfl) (by decide +kernel)

/-- A write, and a read when the project is gone: all is as expected. -/
theorem file_stream_kept_logStream :
    Opened 1 ["log.txt"] logStream ∧
      ∀ before c after, [.write "hello", .release 1, .read 4] = before ++ c :: after →
        Meets ["log.txt"] (Ended 1 before) (logStream.acts before) c := by
  refine ⟨opened_logStream, (file_stream_kept_iff opened_logStream _).1.mpr ?_⟩
  intro before c after hcs hended
  have hopen : ¬Ended 1 [.write "hello"] := by simp [Ended, Closes]
  match before with
  | [] => exact absurd hended fun ⟨_, hc, _⟩ => (nomatch hc)
  | [first] =>
    obtain ⟨rfl, -⟩ := List.cons.inj hcs
    exact absurd hended hopen
  | [_, _] =>
    obtain ⟨-, -, rfl, -⟩ : _ ∧ _ ∧ .read 4 = c ∧ _ := by simpa using hcs
    exact ⟨fun bytes => StreamCall.noConfusion, by decide⟩
  | _ :: _ :: _ :: rest => simp at hcs

/-- **What is written to a closed stream is lost.** The file has what was written before, the last
write is reported as done, and the file has not changed. -/
theorem file_stream_lost_logStream :
    Opened 1 ["log.txt"] logStream ∧
      let h := logStream.acts [.write "hello", .close]
      h.host.files.node? ["log.txt"] = some (.file "hello") ∧
      (∃ s, h.stream.write h.host.files "lost" = (.ok 4, s, h.host.files)) ∧
      ¬Meets ["log.txt"] (Ended 1 [.write "hello", .close]) h (.write "lost") := by
  have hwrite : ∃ s, (logStream.acts [.write "hello", .close]).stream.write
      (logStream.acts [.write "hello", .close]).host.files "lost" =
        (.ok 4, s, (logStream.acts [.write "hello", .close]).host.files) := ⟨_, rfl⟩
  refine ⟨opened_logStream, by decide +kernel, hwrite, fun hmeets => ?_⟩
  obtain ⟨s, hs⟩ := hwrite
  exact (hmeets _ _ _ hs).2.2 ⟨.close, by decide, .inl rfl⟩

end Held

end SchemePlayer
