import Opensquid.Lib.Utf8Cuts
import Opensquid.Runtime.OneShotCli

/-!
# What a one-shot subprocess has captured

Each chunk is decoded by itself, so a character that is cut comes out as replacement characters
(`cut_character_lost`). `capture_exact` says that the streams are told whole exactly if no cut falls
inside a character, and that a stream above the cap never resolves.

The events are taken in any order in which the streams end before the child closes (`DataFirst`).
-/

namespace Opensquid.SpawnLifecycle

open Opensquid.Lib Opensquid.Lib.Lines OneShot

/-- The streams end before the close or the error of the child. -/
def DataFirst (s : OneShot) : Event → Prop
  | .stdout _ | .stderr _ => s.terminal = false
  | _ => True

namespace OneShot

/-- The lines that `onStderrLine` is to have. -/
def linesOf (stderr : List Char) : List (List Char) :=
  (completeLines '\n' stderr).filter fun line => line.length > 0

/-- What holds of the captured streams while the child writes. -/
structure Captured (opts : OneShotOpts) (s : OneShot) : Prop where
  stdoutBytes : s.capture.stdoutBytes = s.capture.stdoutChunks.flatten.length
  stderrBytes : s.capture.stderrBytes = s.capture.stderrChunks.flatten.length
  stdout : s.capture.stdoutBytes ≤ opts.maxCaptureBytes →
    s.capture.stdout = s.capture.stdoutChunks.flatMap Utf8.decode
  stderr : s.capture.stderrBytes ≤ opts.maxCaptureBytes →
    s.capture.stderr = s.capture.stderrChunks.flatMap Utf8.decode
  lines : s.capture.stderrLineBuf = Utf8.lastLine s.capture.stderr ∧
    s.capture.onStderrLine = linesOf s.capture.stderr
  unreported : s.terminal = false → s.capture.streamsReported = false ∧ s.capture.onStreams = []
  overCap : opts.maxCaptureBytes < s.capture.stdoutBytes ∨ opts.maxCaptureBytes < s.capture.stderrBytes →
    s.accepted ≠ []

variable {opts : OneShotOpts} {s t u : OneShot} {error : OneShotError} {code : Option Int} {e : Event}

/-! ## Requests -/

/-- A request while the child has not ended is accepted, or one was before. -/
theorem Sound.accepted_requestShutdown (sound : Sound opts s) (open_ : s.terminal = false) :
    (s.requestShutdown opts error).accepted ≠ [] := by
  have next := @Sound.requestShutdown _ _ error sound
  have notEnded := (sound.of_not_terminal open_).2
  rw [next.accepted]
  by_cases running : s.owner.phase = .running
  · simp [OneShot.requestShutdown, OwnedProcess.requestShutdown, running]
  · have asked : s.owner.shutdownError.isSome := by
      apply sound.owner.asked
      cases phase : s.owner.phase <;> simp_all [OwnedProcess.shutdownPending]
    obtain ⟨first, same⟩ := Option.isSome_iff_exists.mp asked
    simp [OneShot.requestShutdown, OwnedProcess.requestShutdown, running, same]

theorem accepted_ne_nil_of_prefix (before : s.requests <+: t.requests) (some : s.accepted ≠ []) :
    t.accepted ≠ [] := by
  obtain ⟨more, same⟩ := before
  unfold OneShot.accepted at some ⊢
  rw [← same, List.filterMap_append]
  exact List.append_ne_nil_of_left_ne_nil some _

theorem requests_requestShutdown : s.requests <+: (s.requestShutdown opts error).requests :=
  List.prefix_append _ _

/-! ## Events that leave the streams alone -/

/-- Neither a chunk nor the end of the child. -/
def Event.IsControl : Event → Prop
  | .stdout _ | .stderr _ | .error _ | .close _ => False
  | _ => True

/-- Such an event changes nothing of what has been captured, and takes no request back. -/
theorem capture_of_control (control : Event.IsControl e) (fire : step opts s e = some t) :
    t.capture = s.capture ∧ t.terminal = s.terminal ∧ s.requests <+: t.requests := by
  cases e with
  | stdout | stderr | error | close => exact control.elim
  | requestShutdown | stdinFailed =>
      cases fire
      exact ⟨rfl, rfl, requests_requestShutdown⟩
  | lapTimer =>
      obtain ⟨-, same⟩ := Option.ite_none_right_eq_some.mp fire
      cases same
      exact ⟨rfl, rfl, requests_requestShutdown⟩
  | graceTimer | processExit | killSettled =>
      obtain ⟨-, same⟩ := Option.ite_none_right_eq_some.mp fire
      cases same
      exact ⟨rfl, rfl, List.prefix_rfl⟩
  | resume =>
      simp only [step, OneShot.resume] at fire
      split at fire
      · obtain ⟨-, same⟩ := Option.ite_none_right_eq_some.mp fire
        cases same
        exact ⟨rfl, rfl, List.prefix_rfl⟩
      · obtain ⟨-, same⟩ := Option.ite_none_right_eq_some.mp fire
        split at same <;> cases same <;> exact ⟨rfl, rfl, List.prefix_rfl⟩
      · cases fire
        exact ⟨rfl, rfl, List.prefix_rfl⟩
      · cases fire
        exact ⟨rfl, rfl, List.prefix_rfl⟩
      all_goals cases fire
  | drainStart now =>
      simp only [step] at fire
      split at fire
      · cases fire
        exact ⟨rfl, rfl, List.prefix_rfl⟩
      · cases fire
  | drainCheck now alive =>
      simp only [step] at fire
      split at fire
      · cases fire
        unfold OneShot.drainCheck
        dsimp only
        split
        · split <;> exact ⟨rfl, rfl, List.prefix_rfl⟩
        · exact ⟨rfl, rfl, List.prefix_rfl⟩
      · cases fire

/-- The end of the child reports the streams as they are. -/
theorem onClose_of_open (open_ : s.terminal = false) :
    (s.onClose opts code).terminal = true ∧ (s.onClose opts code).requests = s.requests ∧
      (s.onClose opts code).capture = s.capture.reportStreams code := by
  unfold OneShot.onClose
  rw [open_, if_neg Bool.false_ne_true]
  dsimp only
  split_ifs <;> exact ⟨rfl, rfl, rfl⟩

theorem onError_of_open (open_ : s.terminal = false) (message : String) :
    (s.onError opts message).terminal = true ∧ (s.onError opts message).requests = s.requests ∧
      (s.onError opts message).capture = s.capture.reportStreams none := by
  unfold OneShot.onError
  rw [open_, if_neg Bool.false_ne_true]
  dsimp only
  split_ifs <;> exact ⟨rfl, rfl, rfl⟩

/-! ## Chunks -/

theorem Captured.start : Captured opts {} where
  stdoutBytes := rfl
  stderrBytes := rfl
  stdout _ := rfl
  stderr _ := rfl
  lines := ⟨rfl, rfl⟩
  unreported _ := ⟨rfl, rfl⟩
  overCap beyond := by simp at beyond

/-- The streams are the same, and no request is taken back. -/
theorem Captured.of_same (captured : Captured opts s) (capture : t.capture = s.capture)
    (terminal : t.terminal = false → s.terminal = false) (before : s.requests <+: t.requests) :
    Captured opts t where
  stdoutBytes := by rw [capture]; exact captured.stdoutBytes
  stderrBytes := by rw [capture]; exact captured.stderrBytes
  stdout := by rw [capture]; exact captured.stdout
  stderr := by rw [capture]; exact captured.stderr
  lines := by rw [capture]; exact captured.lines
  unreported open_ := by rw [capture]; exact captured.unreported (terminal open_)
  overCap := by
    rw [capture]
    exact fun beyond => accepted_ne_nil_of_prefix before (captured.overCap beyond)

theorem Captured.of_reported (captured : Captured opts s) (ended : t.terminal = true)
    (requests : t.requests = s.requests) (capture : t.capture = s.capture.reportStreams code) :
    Captured opts t := by
  have streams : t.capture.stdoutBytes = s.capture.stdoutBytes ∧
      t.capture.stderrBytes = s.capture.stderrBytes ∧ t.capture.stdout = s.capture.stdout ∧
      t.capture.stderr = s.capture.stderr ∧ t.capture.stderrLineBuf = s.capture.stderrLineBuf ∧
      t.capture.onStderrLine = s.capture.onStderrLine ∧
      t.capture.stdoutChunks = s.capture.stdoutChunks ∧
      t.capture.stderrChunks = s.capture.stderrChunks := by
    rw [capture]
    unfold Capture.reportStreams
    split <;> exact ⟨rfl, rfl, rfl, rfl, rfl, rfl, rfl, rfl⟩
  obtain ⟨outBytes, errBytes, out, err, buffer, lines, outChunks, errChunks⟩ := streams
  exact {
    stdoutBytes := by rw [outBytes, outChunks]; exact captured.stdoutBytes
    stderrBytes := by rw [errBytes, errChunks]; exact captured.stderrBytes
    stdout := by rw [outBytes, out, outChunks]; exact captured.stdout
    stderr := by rw [errBytes, err, errChunks]; exact captured.stderr
    lines := by rw [buffer, err, lines]; exact captured.lines
    unreported := by
      intro open_
      rw [ended] at open_
      cases open_
    overCap := by
      rw [outBytes, errBytes]
      intro beyond
      unfold OneShot.accepted
      rw [requests]
      exact captured.overCap beyond }

theorem linesOf_append (text more : List Char) :
    linesOf (text ++ more) = linesOf text ++
      (completeLines '\n' (Utf8.lastLine text ++ more)).filter fun line => line.length > 0 := by
  unfold linesOf
  rw [Utf8.Framer.completeLines_append, List.filter_append]

theorem Captured.onStdout (captured : Captured opts s) (sound : Sound opts s)
    (open_ : s.terminal = false) (d : List UInt8) : Captured opts (s.onStdout opts d) := by
  have bytes : (s.capture.addStdout d).stdoutBytes =
      (s.capture.addStdout d).stdoutChunks.flatten.length := by
    simp [Capture.addStdout, captured.stdoutBytes]
  have before : s.capture.stdoutBytes ≤ (s.capture.addStdout d).stdoutBytes := Nat.le_add_right _ _
  unfold OneShot.onStdout
  dsimp only
  split
  · rename_i beyond
    exact {
      stdoutBytes := bytes
      stderrBytes := captured.stderrBytes
      stdout := fun within => absurd beyond (Nat.not_lt.mpr within)
      stderr := captured.stderr
      lines := captured.lines
      unreported := captured.unreported
      overCap := fun _ => (sound.of_capture _).accepted_requestShutdown open_ }
  · rename_i within
    exact {
      stdoutBytes := bytes
      stderrBytes := captured.stderrBytes
      stdout := by
        intro _
        have early := captured.stdout (before.trans (Nat.not_lt.mp within))
        simp [Capture.decodeStdout, Capture.addStdout, early]
      stderr := captured.stderr
      lines := captured.lines
      unreported := captured.unreported
      overCap := by
        intro beyond
        rcases beyond with out | err
        · exact absurd out within
        · exact captured.overCap (Or.inr err) }

theorem Captured.onStderr (captured : Captured opts s) (sound : Sound opts s)
    (open_ : s.terminal = false) (d : List UInt8) : Captured opts (s.onStderr opts d) := by
  have bytes : (s.capture.addStderr d).stderrBytes =
      (s.capture.addStderr d).stderrChunks.flatten.length := by
    simp [Capture.addStderr, captured.stderrBytes]
  have before : s.capture.stderrBytes ≤ (s.capture.addStderr d).stderrBytes := Nat.le_add_right _ _
  unfold OneShot.onStderr
  dsimp only
  split
  · rename_i beyond
    exact {
      stdoutBytes := captured.stdoutBytes
      stderrBytes := bytes
      stdout := captured.stdout
      stderr := fun within => absurd beyond (Nat.not_lt.mpr within)
      lines := captured.lines
      unreported := captured.unreported
      overCap := fun _ => (sound.of_capture _).accepted_requestShutdown open_ }
  · rename_i within
    exact {
      stdoutBytes := captured.stdoutBytes
      stderrBytes := bytes
      stdout := captured.stdout
      stderr := by
        intro _
        have early := captured.stderr (before.trans (Nat.not_lt.mp within))
        simp [Capture.decodeStderr, Capture.addStderr, early]
      lines := by
        obtain ⟨buffer, lines⟩ := captured.lines
        simp only [Capture.decodeStderr, Capture.addStderr]
        rw [buffer, lines, ← Utf8.Framer.lastLine_append, linesOf_append]
        exact ⟨rfl, rfl⟩
      unreported := captured.unreported
      overCap := by
        intro beyond
        rcases beyond with out | err
        · exact captured.overCap (Or.inl out)
        · exact absurd err within }

theorem Captured.next (captured : Captured opts s) (sound : Sound opts s) (first : DataFirst s e)
    (fire : step opts s e = some t) : Captured opts t := by
  cases e with
  | stdout d =>
      cases fire
      exact captured.onStdout sound first d
  | stderr d =>
      cases fire
      exact captured.onStderr sound first d
  | error message =>
      cases fire
      cases open_ : s.terminal with
      | true => simpa [OneShot.onError, open_] using captured
      | false =>
          obtain ⟨ended, requests, capture⟩ := @onError_of_open opts _ open_ message
          exact captured.of_reported ended requests capture
  | close code =>
      cases fire
      cases open_ : s.terminal with
      | true => simpa [OneShot.onClose, open_] using captured
      | false =>
          obtain ⟨ended, requests, capture⟩ := @onClose_of_open opts _ code open_
          exact captured.of_reported ended requests capture
  | requestShutdown | stdinFailed | lapTimer | graceTimer | processExit | killSettled | resume
  | drainStart | drainCheck =>
      obtain ⟨capture, terminal, requests⟩ := capture_of_control (by trivial) fire
      exact captured.of_same capture (terminal ▸ id) requests

theorem captured_of_run (run : Steps (step opts) DataFirst {} s) : Captured opts s :=
  run.invariant_of (fun _ before => sound_of_run before) Captured.start
    fun _ _ _ sound _ captured first fire => captured.next sound first fire

/-! ## After the close -/

/-- The child has closed with code 0 and no shutdown was requested. -/
def Closing (c : Capture) (s : OneShot) : Prop :=
  s.terminal = true ∧ s.capture = c ∧
    (s.handling = .closeDone (some 0) none ∧ s.outcomes = [] ∨
      s.handling = .settled ∧ s.outcomes = [.resolved c.stdout])

theorem closing_of_close (sound : Sound opts s) (open_ : s.terminal = false) (quiet : s.accepted = []) :
    (s.onClose opts (some 0)).handling = .closeDone (some 0) none ∧
      Closing (s.capture.reportStreams (some 0)) (s.onClose opts (some 0)) := by
  obtain ⟨outcomes, notClosed, notFailed⟩ := sound.of_not_terminal open_
  have none_asked : s.owner.shutdownError = none := by
    rw [sound.accepted] at quiet
    exact Option.toList_eq_nil_iff.mp quiet
  have running : s.owner.phase = .running := by
    have asked := sound.owner.asked
    rw [none_asked] at asked
    cases phase : s.owner.phase <;> simp_all [OwnedProcess.shutdownPending]
  unfold OneShot.onClose
  simp [open_, running, OneShot.endClose, OwnedProcess.finishClose, OwnedProcess.cleanup, none_asked,
    Closing, outcomes]

/-- Nothing changes any more what has been captured and how the promise settles. -/
theorem Closing.next {c : Capture} (closing : Closing c s) (first : DataFirst s e)
    (fire : step opts s e = some t) : Closing c t := by
  obtain ⟨ended, capture, handling⟩ := closing
  cases e with
  | stdout | stderr =>
      rw [DataFirst, ended] at first
      cases first
  | error message =>
      cases fire
      rw [OneShot.onError, if_pos ended]
      exact ⟨ended, capture, handling⟩
  | close code =>
      cases fire
      rw [OneShot.onClose, if_pos ended]
      exact ⟨ended, capture, handling⟩
  | requestShutdown | stdinFailed =>
      cases fire
      exact ⟨ended, capture, handling⟩
  | lapTimer | graceTimer | processExit | killSettled =>
      obtain ⟨-, same⟩ := Option.ite_none_right_eq_some.mp fire
      cases same
      exact ⟨ended, capture, handling⟩
  | resume =>
      simp only [step, OneShot.resume] at fire
      rcases handling with ⟨waiting, outcomes⟩ | ⟨settled, -⟩
      · rw [waiting] at fire
        cases fire
        refine ⟨ended, capture, Or.inr ⟨rfl, ?_⟩⟩
        simp [OneShot.settle, OneShot.closeOutcome, outcomes, capture]
      · rw [settled] at fire
        cases fire
  | drainStart | drainCheck =>
      simp only [step] at fire
      rcases handling with ⟨waiting, -⟩ | ⟨settled, -⟩
      · rw [waiting] at fire
        cases fire
      · rw [settled] at fire
        cases fire

/-! ## Whole streams -/

/-- The promise resolves with the decoded stdout, and the observers have had both streams decoded,
once, and the lines of stderr. -/
structure TellsWhole (stdout stderr : List UInt8) (s : OneShot) : Prop where
  outcomes : s.outcomes = [.resolved (Utf8.decode stdout)]
  onStreams : s.capture.onStreams = [⟨Utf8.decode stdout, Utf8.decode stderr, some 0⟩]
  onStderrLine : s.capture.onStderrLine = linesOf (Utf8.decode stderr)

/-- Each chunk is a text by itself. -/
def CutsApart (chunks : List (List UInt8)) : Prop := ∀ chunk ∈ chunks, ∃ chars, chunk = Utf8.encode chars

theorem tellsWhole_iff (captured : Captured opts s) (open_ : s.terminal = false) (quiet : s.accepted = [])
    {out err : List Char} (outText : s.capture.stdoutChunks.flatten = Utf8.encode out)
    (errText : s.capture.stderrChunks.flatten = Utf8.encode err)
    (closing : Closing (s.capture.reportStreams (some 0)) u) (settled : u.outcomes ≠ []) :
    u.TellsWhole s.capture.stdoutChunks.flatten s.capture.stderrChunks.flatten ↔
      CutsApart s.capture.stdoutChunks ∧ CutsApart s.capture.stderrChunks := by
  have within : s.capture.stdoutBytes ≤ opts.maxCaptureBytes ∧
      s.capture.stderrBytes ≤ opts.maxCaptureBytes := by
    constructor
    · exact Nat.not_lt.mp fun beyond => captured.overCap (Or.inl beyond) quiet
    · exact Nat.not_lt.mp fun beyond => captured.overCap (Or.inr beyond) quiet
  obtain ⟨fresh, none_reported⟩ := captured.unreported open_
  obtain ⟨-, capture, handling⟩ := closing
  have outcomes : u.outcomes = [.resolved s.capture.stdout] := by
    rcases handling with ⟨-, none⟩ | ⟨-, resolved⟩
    · exact absurd none settled
    · rw [resolved]
      unfold Capture.reportStreams
      split <;> rfl
  have reported : u.capture.onStreams = [⟨s.capture.stdout, s.capture.stderr, some 0⟩] ∧
      u.capture.onStderrLine = linesOf s.capture.stderr := by
    rw [capture]
    simp [Capture.reportStreams, fresh, none_reported, captured.lines.2]
  unfold CutsApart
  rw [← Utf8.flatMap_decode_eq_iff outText, ← Utf8.flatMap_decode_eq_iff errText,
    ← captured.stdout within.1, ← captured.stderr within.2]
  constructor
  · intro whole
    have streams := whole.onStreams
    rw [reported.1, outText, errText, Utf8.decode_encode, Utf8.decode_encode] at streams
    cases streams
    exact ⟨rfl, rfl⟩
  · intro ⟨sameOut, sameErr⟩
    rw [outText, errText]
    exact {
      outcomes := by rw [outcomes, sameOut, Utf8.decode_encode]
      onStreams := by rw [reported.1, sameOut, sameErr, Utf8.decode_encode, Utf8.decode_encode]
      onStderrLine := by rw [reported.2, sameErr, Utf8.decode_encode] }

end OneShot

/-- After a close with code 0 and no request the promise settles, and the streams are told whole if
and only if no cut falls inside a character. A stream above the cap never resolves. -/
theorem capture_exact (opts : OneShotOpts) :
    (∀ s t u : OneShot, Steps (step opts) DataFirst {} s → s.terminal = false → s.accepted = [] →
      (∃ out, s.capture.stdoutChunks.flatten = Utf8.encode out) →
      (∃ err, s.capture.stderrChunks.flatten = Utf8.encode err) →
      step opts s (.close (some 0)) = some t → Steps (step opts) DataFirst t u →
      (∃ v, step opts t .resume = some v ∧ v.outcomes ≠ []) ∧
        (u.outcomes ≠ [] →
          (u.TellsWhole s.capture.stdoutChunks.flatten s.capture.stderrChunks.flatten ↔
            CutsApart s.capture.stdoutChunks ∧ CutsApart s.capture.stderrChunks))) ∧
    (∀ s : OneShot, Steps (step opts) DataFirst {} s →
      opts.maxCaptureBytes < s.capture.stdoutChunks.flatten.length ∨
        opts.maxCaptureBytes < s.capture.stderrChunks.flatten.length →
      ∀ stdout, .resolved stdout ∉ s.outcomes) := by
  constructor
  · intro s t u run open_ quiet outText errText close later
    have sound := sound_of_run run.any
    have captured := captured_of_run run
    obtain ⟨waiting, started⟩ := closing_of_close sound open_ quiet
    cases close
    constructor
    · have turn : step opts (s.onClose opts (some 0)) .resume = some
          ((s.onClose opts (some 0)).settle ((s.onClose opts (some 0)).closeOutcome opts (some 0) none)) := by
        simp only [step, OneShot.resume, waiting]
      exact ⟨_, turn, by simp [OneShot.settle]⟩
    · intro settled
      obtain ⟨out, outText⟩ := outText
      obtain ⟨err, errText⟩ := errText
      have closing := later.invariant started fun _ _ _ closing first fire => closing.next first fire
      exact tellsWhole_iff captured open_ quiet outText errText closing settled
  · intro s run beyond stdout mem
    have captured := captured_of_run run
    have sound := sound_of_run run.any
    rw [← captured.stdoutBytes, ← captured.stderrBytes] at beyond
    have asked := captured.overCap beyond
    obtain ⟨-, -, outcome, single, -, resolves⟩ := sound.settled (List.ne_nil_of_mem mem)
    rw [single, List.mem_singleton] at mem
    have none_asked := resolves ⟨stdout, mem.symm⟩
    rw [sound.accepted, none_asked] at asked
    exact asked rfl

instance (s : OneShot) (e : Event) : Decidable (DataFirst s e) :=
  match e with
  | .stdout _ | .stderr _ => inferInstanceAs (Decidable (s.terminal = false))
  | .requestShutdown _ | .stdinFailed _ | .lapTimer | .graceTimer | .processExit | .error _ | .close _
  | .killSettled | .resume | .drainStart _ | .drainCheck _ _ => .isTrue trivial

def smallOpts : OneShotOpts :=
  { realOpts with maxCaptureBytes := 4 }

/-- The two streams in turn; the cut of stderr is inside a line. -/
def interleaved : OneShot :=
  (runWhile (step smallOpts) (fun s e => DataFirst s e) {}
    [.stdout [0xc3, 0xa9], .stderr [0x61], .stdout [0x21], .stderr [0x62, 0x0a]]).get
    (by decide +kernel)

def interleavedSettled : OneShot :=
  (runWhile (step smallOpts) (fun s e => DataFirst s e) (interleaved.onClose smallOpts (some 0))
    [.resume]).get (by decide +kernel)

def overflowing : OneShot :=
  (runWhile (step smallOpts) (fun s e => DataFirst s e) {}
    [.stdout [0x61, 0x62, 0x63], .stdout [0x64, 0x65], .close (some 0), .resume, .drainStart 0,
      .drainCheck 0 false, .resume]).get (by decide +kernel)

theorem interleaved_tells_whole :
    interleavedSettled.TellsWhole [0xc3, 0xa9, 0x21] [0x61, 0x62, 0x0a] ∧
      ∀ stdout, .resolved stdout ∉ overflowing.outcomes :=
  ⟨((capture_exact smallOpts).1 interleaved _ interleavedSettled
      (Steps.of_runWhile (fun _ _ => of_decide_eq_true) (Option.some_get _).symm) (by decide +kernel)
      (by decide +kernel) ⟨['é', '!'], by decide +kernel⟩ ⟨['a', 'b', '\n'], by decide +kernel⟩ rfl
      (Steps.of_runWhile (fun _ _ => of_decide_eq_true) (Option.some_get _).symm)).2
      (by decide +kernel) |>.mpr
      ⟨List.forall_mem_cons.mpr ⟨⟨['é'], by decide +kernel⟩,
          List.forall_mem_cons.mpr ⟨⟨['!'], by decide +kernel⟩, by simp⟩⟩,
        List.forall_mem_cons.mpr ⟨⟨['a'], by decide +kernel⟩,
          List.forall_mem_cons.mpr ⟨⟨['b', '\n'], by decide +kernel⟩, by simp⟩⟩⟩,
    (capture_exact smallOpts).2 overflowing
      (Steps.of_runWhile (fun _ _ => of_decide_eq_true) (Option.some_get _).symm) (by decide +kernel)⟩

/-- Two chunks with one character between them: the promise resolves with two replacement
characters. -/
theorem cut_character_lost :
    (runWhile (step realOpts) (fun s e => DataFirst s e) {}
      [.stdout [0xc3], .stdout [0xa9], .close (some 0), .resume]).map
        (fun s => (s.accepted, s.outcomes)) = some ([], [.resolved ['\ufffd', '\ufffd']]) ∧
      Utf8.decode [0xc3, 0xa9] = ['é'] := by
  decide +kernel

end Opensquid.SpawnLifecycle
