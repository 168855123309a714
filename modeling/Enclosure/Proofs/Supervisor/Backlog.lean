import Enclosure.Proofs.Supervisor.Output
import Enclosure.Proofs.Supervisor.Queue

/-!
This module contains the invariant of how much a supervisor buffers: no more than the frames that
may wait and one receive, unless a length that no frame has is among the bytes. Such a length is not
counted as a frame, so reading does not pause for what comes behind it.
-/

namespace Enclosure.Supervisor

open Frame (lengthSize maxBody NoneWhole)

-- A length that no frame has stands behind fewer frames than those that reading pauses for.
def Clogged (buf : List UInt8) : Prop :=
  ∃ fs rest e, Cut buf fs rest ∧ fs.length < maxQueuedFrames ∧ Frame.length? rest = .error e

def Backlog (buf : List UInt8) : Prop :=
  buf.length ≤ maxQueuedFrames * (lengthSize + maxBody) + readChunk ∨ Clogged buf

theorem Clogged.queuedFrames_lt {buf : List UInt8} (h : Clogged buf)
    : queuedFrames buf < maxQueuedFrames := by
  obtain ⟨fs, rest, e, hcut, hcount, _⟩ := h
  rw [hcut.queuedFrames]
  exact hcount

theorem Clogged.append {buf : List UInt8} (h : Clogged buf) (bytes : List UInt8)
    : Clogged (buf ++ bytes) := by
  obtain ⟨fs, rest, e, hcut, hcount, herror⟩ := h
  have herror : Frame.length? (rest ++ bytes) = .error e := by
    rw [Frame.length?_append _ _ (Frame.lengthSize_le_of_length?_error herror), herror]
  refine ⟨fs, rest ++ bytes, e, ?_, hcount, herror⟩
  constructor
  case eq => rw [hcut.eq, List.append_assoc]
  case whole => exact hcut.whole
  case last => exact Frame.noneWhole_of_error herror

theorem Clogged.drop {buf : List UInt8} (h : Clogged buf)
    (hlength : Frame.length? buf = .ok (some size))
    : Clogged (buf.drop size) := by
  obtain ⟨fs, rest, e, ⟨rfl, hwhole, hlast⟩, hcount, herror⟩ := h
  cases fs with
  | nil =>
    rw [List.flatten_nil, List.nil_append, herror] at hlength
    contradiction
  | cons f fs =>
    rw [List.forall_mem_cons] at hwhole
    rw [List.flatten_cons, List.append_assoc, hwhole.1.length?_append, Except.ok.injEq,
      Option.some.injEq] at hlength
    rw [List.flatten_cons, List.append_assoc, ← hlength, List.drop_left]
    exact ⟨fs, rest, e, ⟨rfl, hwhole.2, hlast⟩, Nat.lt_of_succ_lt hcount, herror⟩

theorem Backlog.drop {buf : List UInt8} (h : Backlog buf)
    (hlength : Frame.length? buf = .ok (some size))
    : Backlog (buf.drop size) := by
  cases h with
  | inl hle =>
    left
    rw [List.length_drop]
    omega
  | inr hclogged => exact .inr (hclogged.drop hlength)

theorem backlog_append {buf bytes : List UInt8} (hqueued : queuedFrames buf < maxQueuedFrames)
    (hbytes : bytes.length ≤ readChunk)
    : Backlog (buf ++ bytes) := by
  obtain ⟨fs, rest, hcut⟩ := exists_cut buf
  rw [hcut.queuedFrames] at hqueued
  cases Frame.length_lt_of_noneWhole hcut.last with
  | inl herror =>
    obtain ⟨e, herror⟩ := herror
    exact .inr (Clogged.append ⟨fs, rest, e, hcut, hqueued, herror⟩ bytes)
  | inr hshort =>
    left
    -- The partial frame takes the place of the last frame that may wait.
    have hfront := hcut.length_le
    have := Nat.mul_le_mul_right (lengthSize + maxBody) hqueued
    rw [Nat.succ_mul] at this
    rw [List.length_append]
    omega

-- A property of buffers that starting the first frame keeps, and that every receive leaves behind
-- if fewer frames were there than those that reading pauses for.
structure Buffered (P : List UInt8 → Prop) : Prop where
  nil : P []
  drop : ∀ {buf : List UInt8} {size : Nat},
    P buf → Frame.length? buf = .ok (some size) → P (buf.drop size)
  append : ∀ {buf bytes : List UInt8},
    queuedFrames buf < maxQueuedFrames → bytes.length ≤ readChunk → P (buf ++ bytes)

theorem buffered_backlog : Buffered Backlog :=
  ⟨.inl (Nat.zero_le _), Backlog.drop, backlog_append⟩

variable {P : List UInt8 → Prop}

namespace Server

theorem NoFrame.noneWhole {s : Server F} (h : s.NoFrame) : NoneWhole s.inbuf := by
  intro size hlength
  obtain hnone | ⟨size', hsome, hshort⟩ := h
  . rw [hnone, Except.ok.injEq] at hlength
    contradiction
  . rw [hsome, Except.ok.injEq, Option.some.injEq] at hlength
    omega

theorem NoFrame.length_lt {s : Server F} (h : s.NoFrame)
    : s.inbuf.length < lengthSize + maxBody := by
  cases Frame.length_lt_of_noneWhole h.noneWhole with
  | inr hlt => exact hlt
  | inl herror =>
    obtain ⟨e, herror⟩ := herror
    obtain hnone | ⟨size, hsome, _⟩ := h
    . rw [herror] at hnone
      contradiction
    . rw [herror] at hsome
      contradiction

theorem queuedFrames_lt_of_not_paused {s : Server F} (hroom : s.isFull = true ∨ s.NoFrame)
    (hpaused : s.isPaused = false)
    : queuedFrames s.inbuf < maxQueuedFrames := by
  cases hroom with
  | inl hfull =>
    unfold isPaused at hpaused
    rw [hfull, Bool.true_and, decide_eq_false_iff_not] at hpaused
    exact Nat.lt_of_not_le hpaused
  | inr hnone =>
    rw [queuedFrames_eq_zero hnone.noneWhole]
    decide

theorem Starts.buffered {s s' : Server F} (hP : Buffered P) (h : Starts s rs s') (hs : P s.inbuf)
    : P s'.inbuf := by
  induction h with
  | nil s => exact hs
  | cons hlength _ _ _ ih => exact ih (hP.drop hs hlength)

end Server

namespace Loop

theorem read_buffered {l : Loop F} (hP : Buffered P) (h : P l.server.inbuf)
    (hqueued : queuedFrames l.server.inbuf < maxQueuedFrames) {answer : Answer}
    (ha : answer.isSome = true) (onNothing : Phase)
    : P (l.read answer onNothing).server.inbuf := by
  obtain hread | ⟨_, _, hread⟩ | ⟨_, hread⟩ | ⟨n, bytes, descriptors, segments, hn, htake, hread⟩ :=
    l.read_cases ha onNothing
  all_goals
    rw [hread]
  . exact h
  . exact h
  . exact h
  . apply hP.append hqueued
    have := Channel.length_takeFrom_le n l.socket.incoming.segments
    rw [htake] at this
    exact Nat.le_trans this hn.2

theorem turn_buffered {l : Loop F} (hP : Buffered P) (h : P l.server.inbuf) {answer : Answer}
    (ha : answer.isSome = true)
    : P (l.turn answer).server.inbuf := by
  obtain ⟨rs, s, hstarts, _, _, hres⟩ := l.turn_cases ha
  have hbuffered := hstarts.buffered hP h
  obtain ⟨e, descriptors, _, _, hturn⟩
    | ⟨_, hfront, unreadInput, hturn | ⟨hpaused, _, hturn⟩⟩ := hres
  . rw [hturn]
    exact hbuffered
  . rw [hturn]
    exact hbuffered
  . rw [hturn]
    exact read_buffered hP hbuffered
      (Server.queuedFrames_lt_of_not_paused (hstarts.isFull_or_noFrame hfront) hpaused) ha .waiting

theorem step_buffered {l l' : Loop F} (hP : Buffered P) (h : P l.server.inbuf)
    (hroom : l.WaitsForRoom) (hstep : l.step e = some l')
    : P l'.server.inbuf := by
  obtain ⟨henabled, rfl⟩ := step_eq_some_iff.mp hstep
  cases e with
  | arrival | close | verdict => exact h
  | noticePaused =>
    change P l.noticePaused.server.inbuf
    unfold noticePaused
    split <;> exact h
  | readable answer =>
    simp only [enabled, Bool.and_eq_true, Bool.not_eq_true'] at henabled
    obtain ⟨⟨⟨hwaiting, hpaused⟩, _⟩, ha⟩ := henabled
    exact read_buffered hP h (Server.queuedFrames_lt_of_not_paused (hroom hwaiting) hpaused) ha .top
  | writable answer => cases answer <;> exact h
  | respond =>
    change P l.respond.server.inbuf
    obtain hrespond | ⟨_, _, _, _, _, ⟨_, _, hrespond⟩ | ⟨_, _, hrespond⟩⟩ := l.respond_cases
    all_goals
      rw [hrespond]
      exact h
  | turn answer =>
    simp only [enabled, Bool.and_eq_true] at henabled
    exact turn_buffered hP h henabled.2

theorem run_buffered (hP : Buffered P) {maxParallel : Nat} {es : List (Event F)} {l : Loop F}
    (hrun : (new maxParallel).run es = some l)
    : P l.server.inbuf ∧ l.WaitsForRoom := by
  refine run_induction (P := fun _ _ l => P l.server.inbuf ∧ l.WaitsForRoom) ?_ ?_ hrun
  . exact ⟨hP.nil, fun hwaiting => by contradiction⟩
  . intro _ _ l e l' h hstep
    exact ⟨step_buffered hP h.1 h.2 hstep, step_waitsForRoom h.2 hstep⟩

/-- A supervisor never buffers more than the frames that may wait and one receive, unless a length
that no frame has is behind fewer frames than that. A waiting supervisor with a free slot has less
than one frame buffered. -/
theorem length_inbuf_le_or_clogged (maxParallel : Nat) (es : List (Event F)) (l : Loop F)
    (hrun : (new maxParallel).run es = some l)
    : (l.server.inbuf.length ≤ maxQueuedFrames * (lengthSize + maxBody) + readChunk
          ∨ Clogged l.server.inbuf)
        ∧ (l.isWaiting = true → l.server.isFull = false →
            l.server.inbuf.length < lengthSize + maxBody) := by
  have h := run_buffered buffered_backlog hrun
  refine ⟨h.1, ?_⟩
  intro hwaiting hfull
  cases h.2 hwaiting with
  | inl hfull' =>
    rw [hfull] at hfull'
    contradiction
  | inr hnone => exact hnone.length_lt

-- A request arrives and is started, and with it the first bytes of another one.
def halfArrived : List (Event Unit) :=
  [.turn (.ok readChunk), .arrival ⟨[27, 0, 0, 0] ++ List.replicate 27 0 ++ [27, 0], []⟩,
   .readable (.ok readChunk), .turn (.ok readChunk)]

theorem length_inbuf_le_or_clogged_of_halfArrived
    : ∃ l : Loop Unit,
        (new 2).run halfArrived = some l
          ∧ l.isWaiting = true
          ∧ l.server.isFull = false
          ∧ (l.server.inbuf.length ≤ maxQueuedFrames * (lengthSize + maxBody) + readChunk
              ∨ Clogged l.server.inbuf)
          ∧ l.server.inbuf.length < lengthSize + maxBody := by
  obtain ⟨hbacklog, hfree⟩ := length_inbuf_le_or_clogged 2 halfArrived _ rfl
  exact ⟨_, rfl, rfl, rfl, hbacklog, hfree rfl rfl⟩

structure Clogs (l : Loop F) : Prop where
  waiting : l.isWaiting = true
  full : l.server.isFull = true
  clogged : Clogged l.server.inbuf
  unread : l.server.unreadInput = false
  incoming : l.socket.incoming = {}

def feed (bytes : List UInt8) : List (Event F) :=
  [.arrival ⟨bytes, []⟩, .readable (.ok readChunk), .turn (.ok readChunk)]

def fed (l : Loop F) (bytes : List UInt8) : Loop F :=
  { l with
    server := l.server.receive bytes []
    socket := { l.socket with readReady := true } }

theorem receive_of_arrived {l : Loop F} {bytes : List UInt8}
    (hincoming : l.socket.incoming = { segments := [⟨bytes, []⟩] }) (hne : bytes ≠ [])
    (hle : bytes.length ≤ readChunk) (onNothing : Phase)
    : l.receive readChunk onNothing
        =
      { l with
        server := l.server.receive bytes []
        socket := { l.socket with incoming := {} }
        phase := .top } := by
  have hreceive : l.socket.incoming.receive (min readChunk readChunk) = (.ok (bytes, []), {}) := by
    rw [hincoming, Nat.min_self]
    unfold Channel.receive
    simp [Channel.takeFrom_singleton hle]
  unfold receive
  rw [hreceive]
  cases bytes with
  | nil => contradiction
  | cons b bytes => rfl

theorem turn_of_full {l : Loop F} (hfull : l.server.isFull = true)
    (hunread : l.server.unreadInput = false) (answer : Answer)
    : l.turn answer = { l with phase := .waiting } := by
  have hroom : l.server.startBuffered = (l.server, none) := by
    simp only [Server.isFull, decide_eq_true_eq] at hfull
    unfold Server.startBuffered
    rw [Nat.sub_eq_zero_of_le hfull]
    rfl
  unfold turn
  simp only [hroom, hunread, Bool.and_false, Bool.false_eq_true, if_false]

namespace Clogs

variable {l : Loop F}

theorem isPaused (h : l.Clogs) : l.server.isPaused = false := by
  have := h.clogged.queuedFrames_lt
  unfold Server.isPaused
  rw [decide_eq_false (by omega), Bool.and_false]

theorem fed (h : l.Clogs) (bytes : List UInt8) : (l.fed bytes).Clogs where
  waiting := h.waiting
  full := h.full
  clogged := h.clogged.append bytes
  unread := h.unread
  incoming := h.incoming

theorem run_feed (h : l.Clogs) {bytes : List UInt8} (hne : bytes ≠ [])
    (hle : bytes.length ≤ readChunk)
    : l.run (feed bytes) = some (l.fed bytes) := by
  have hpaused := h.isPaused
  obtain ⟨hwaiting, hfull, _, hunread, hincoming⟩ := h
  rcases l with ⟨server, ⟨incoming, readReady, written⟩, phase⟩
  obtain rfl : incoming = {} := hincoming
  obtain rfl : phase = .waiting := phase_of_isWaiting hwaiting
  have harrival : Loop.step ⟨server, ⟨{}, readReady, written⟩, .waiting⟩ (.arrival ⟨bytes, []⟩)
      = some ⟨server, ⟨{ segments := [⟨bytes, []⟩] }, true, written⟩, .waiting⟩ :=
    step_eq_some_iff.mpr ⟨by simp [enabled, hne], rfl⟩
  have hreadable : Loop.step ⟨server, ⟨{ segments := [⟨bytes, []⟩] }, true, written⟩, .waiting⟩
      (.readable (.ok readChunk))
      = some ⟨server.receive bytes [], ⟨{}, true, written⟩, .top⟩ := by
    apply step_eq_some_iff.mpr
    refine ⟨?_, receive_of_arrived rfl hne hle .top⟩
    simp only [enabled, hpaused]
    rfl
  have hturn : Loop.step ⟨server.receive bytes [], ⟨{}, true, written⟩, .top⟩
      (.turn (.ok readChunk))
      = some ⟨server.receive bytes [], ⟨{}, true, written⟩, .waiting⟩ := by
    apply step_eq_some_iff.mpr
    refine ⟨rfl, ?_⟩
    apply turn_of_full
    . exact hfull
    . exact hunread
  rw [feed, run_cons, harrival, Option.bind_some, run_cons, hreadable, Option.bind_some, run_cons,
    hturn]
  rfl

theorem run_feeds (h : l.Clogs) (chunks : List (List UInt8))
    (hchunks : ∀ bytes ∈ chunks, bytes ≠ [] ∧ bytes.length ≤ readChunk)
    : ∃ l',
        l.run (chunks.flatMap feed) = some l'
          ∧ l'.Clogs
          ∧ l'.server.inbuf = l.server.inbuf ++ chunks.flatten := by
  induction chunks generalizing l with
  | nil => exact ⟨l, rfl, h, by simp⟩
  | cons bytes chunks ih =>
    rw [List.forall_mem_cons] at hchunks
    obtain ⟨l', hrun, hclogs, hinbuf⟩ := ih (h.fed bytes) hchunks.2
    refine ⟨l', ?_, hclogs, ?_⟩
    . rw [List.flatMap_cons, run_append, h.run_feed hchunks.1.1 hchunks.1.2]
      exact hrun
    . rw [hinbuf, List.flatten_cons, ← List.append_assoc]
      rfl

theorem exists_run_length_inbuf (h : l.Clogs) (n : Nat)
    : ∃ es l', l.run es = some l' ∧ l'.Clogs ∧ n ≤ l'.server.inbuf.length := by
  obtain ⟨l', hrun, hclogs, hinbuf⟩ := h.run_feeds (List.replicate n [0]) (by
    intro bytes hbytes
    rw [List.eq_of_mem_replicate hbytes]
    decide)
  refine ⟨_, l', hrun, hclogs, ?_⟩
  rw [hinbuf, List.length_append]
  simp

end Clogs

-- A request takes the only slot, and a length that no frame has comes behind it.
def clogging : List (Event Unit) :=
  [.turn (.ok readChunk),
   .arrival ⟨[27, 0, 0, 0] ++ List.replicate 27 0 ++ List.replicate 4 255, []⟩,
   .readable (.ok readChunk), .turn (.ok readChunk)]

theorem exists_run_clogging : ∃ l : Loop Unit, (new 1).run clogging = some l ∧ l.Clogs := by
  have h : ((new 1).run clogging).any (fun l =>
      l.isWaiting && l.server.isFull && l.server.inbuf = List.replicate 4 255
        && !l.server.unreadInput && l.socket.incoming = {}) = true := by
    decide +kernel
  obtain ⟨l, hrun, hl⟩ := (Option.any_eq_true _ _).mp h
  simp only [Bool.and_eq_true, Bool.not_eq_true', decide_eq_true_eq] at hl
  obtain ⟨⟨⟨⟨hwaiting, hfull⟩, hinbuf⟩, hunread⟩, hincoming⟩ := hl
  have herror : Frame.length? (List.replicate 4 255) = .error (.tooLarge 0xffffffff) := rfl
  have hclogged : Clogged l.server.inbuf := by
    rw [hinbuf]
    exact ⟨[], _, _, .of_noneWhole (Frame.noneWhole_of_error herror), by decide, herror⟩
  exact ⟨l, hrun, hwaiting, hfull, hclogged, hunread, hincoming⟩

theorem not_length_inbuf_le
    : ¬ ∀ (maxParallel : Nat) (es : List (Event Unit)) (l : Loop Unit),
        (new maxParallel).run es = some l →
          l.server.inbuf.length ≤ maxQueuedFrames * (lengthSize + maxBody) + readChunk := by
  intro hall
  obtain ⟨l, hrun, hclogs⟩ := exists_run_clogging
  obtain ⟨es, l', hrun', _, hlength⟩ := hclogs.exists_run_length_inbuf
    (maxQueuedFrames * (lengthSize + maxBody) + readChunk + 1)
  have hrun : (new 1).run (clogging ++ es) = some l' := by
    rw [run_append, hrun]
    exact hrun'
  have := hall 1 (clogging ++ es) l' hrun
  omega

end Loop
end Enclosure.Supervisor
