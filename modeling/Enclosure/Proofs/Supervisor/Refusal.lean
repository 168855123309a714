import Enclosure.Proofs.Request.Refusal
import Enclosure.Proofs.Supervisor.Run
import Enclosure.Supervisor.Session

/-!
This module contains what becomes of a refused request: its task comes to the verdict that tells the
fault, and that verdict is answered in its turn, unless no frame is large enough for it.
-/

namespace Enclosure

open ControlGroup (Leaf Tree)
open Frame (lengthSize maxBody)

theorem Sandbox.run_of_refused [FileSystem σ] {r : Request F} (h : r.validate = .error e)
    (launch : Leaf → Request F → StateM σ Verdict) (tree : Tree) (files : σ)
    : (Sandbox.run launch tree r).run files = ((.failed e.message, tree), files) := by
  unfold Sandbox.run
  rw [h]
  rfl

namespace Supervisor

theorem Session.runTask_of_refused [FileSystem σ] {task : Task F}
    (h : task.request.validate = .error e) (launch : Leaf → Request F → StateM σ Verdict)
    (s : Session σ F)
    : s.runTask launch task
        =
      { s with loop := s.loop.apply (.verdict task.id (.failed e.message)) } := by
  unfold runTask
  rw [Sandbox.run_of_refused h]

namespace Loop

variable {l : Loop F} {id : Nat} {r : Request F} {v : Verdict} {inFlight : List (Task F)}

theorem enabled_respond (hwaiting : l.isWaiting = true)
    (hfront : l.server.inFlight = ⟨id, r, some v⟩ :: inFlight)
    : l.enabled .respond = true := by
  simp only [enabled, hwaiting, hfront]
  rfl

theorem step_respond_ok (hwaiting : l.isWaiting = true)
    (hfront : l.server.inFlight = ⟨id, r, some v⟩ :: inFlight) (hencode : v.encode = .ok frame)
    : l.step .respond
        =
      some { l with
        server := { l.server with inFlight, outbuf := l.server.outbuf ++ frame }
        phase := .top } := by
  apply step_eq_some_iff.mpr
  refine ⟨enabled_respond hwaiting hfront, ?_⟩
  change l.respond = _
  unfold respond Server.respond
  simp only [hfront, hencode]

theorem step_respond_error (hwaiting : l.isWaiting = true)
    (hfront : l.server.inFlight = ⟨id, r, some v⟩ :: inFlight) (hencode : v.encode = .error e)
    : l.step .respond
        =
      some ({ l with server := { l.server with inFlight } }.fail (.frame e)) := by
  apply step_eq_some_iff.mpr
  refine ⟨enabled_respond hwaiting hfront, ?_⟩
  change l.respond = _
  unfold respond Server.respond
  simp only [hfront, hencode]

/-- A request that can be read but is refused comes to the verdict that tells why, and nothing is
built for it. In its turn that verdict is answered with one frame, and everything else goes on as
before. Only a path that leads to a parent directory and leaves no room for what is told about it
ends the loop instead. -/
theorem respond_of_refused (body : List UInt8) (descriptors left : List F) (r : Request F)
    (e : RequestFault) (hsize : body.length ≤ maxBody)
    (hdecode : Request.decode body descriptors = (.ok r, left)) (hrefused : r.validate = .error e)
    : (∀ (σ : Type) [FileSystem σ] (launch : Leaf → Request F → StateM σ Verdict)
          (s : Session σ F) (task : Task F), task.request = r →
          s.runTask launch task
            = { s with loop := s.loop.apply (.verdict task.id (.failed e.message)) })
        ∧ ((∀ path, e = .parentComponent path → path.utf8ByteSize + 49 ≤ maxBody) →
            ∃ frame,
              (Verdict.failed e.message).encode = .ok frame
                ∧ Verdict.decode (frame.drop lengthSize) = .ok (.failed e.message)
                ∧ ∀ (l : Loop F) (id : Nat) (inFlight : List (Task F)), l.isWaiting = true →
                    l.server.inFlight = ⟨id, r, some (.failed e.message)⟩ :: inFlight →
                      l.step .respond
                        = some { l with
                            server := { l.server with inFlight, outbuf := l.server.outbuf ++ frame }
                            phase := .top })
        ∧ (∀ path, e = .parentComponent path → maxBody < path.utf8ByteSize + 49 →
            ∀ (l : Loop F) (id : Nat) (inFlight : List (Task F)), l.isWaiting = true →
              l.server.inFlight = ⟨id, r, some (.failed e.message)⟩ :: inFlight →
                l.step .respond
                  = some ({ l with server := { l.server with inFlight } }.fail
                      (.frame (.tooLarge (path.utf8ByteSize + 49))))) := by
  obtain ⟨hbody, _⟩ := Request.eq_body_of_decode hdecode
  rw [hbody] at hsize
  refine ⟨?_, ?_, ?_⟩
  . intro σ _ launch s task htask
    exact Session.runTask_of_refused (htask ▸ hrefused) launch s
  . intro hfits
    have hencode := Verdict.encode_failed e.message
      ((Request.size_message_le_iff hsize hrefused).mpr hfits)
    obtain ⟨_, _, hread⟩ := Verdict.decode_of_encode hencode
    refine ⟨_, hencode, ?_, ?_⟩
    . rw [Frame.drop_ofBody]
      exact hread
    . intro l id inFlight hwaiting hfront
      exact step_respond_ok hwaiting hfront hencode
  . rintro path rfl hlarge l id inFlight hwaiting hfront
    obtain hbrief | ⟨hargv, path', hpath, he | he⟩ := Request.validate_error hrefused
    . simp [RequestFault.withoutPath] at hbrief
    . contradiction
    . obtain rfl := RequestFault.parentComponent.inj he
      have := Request.size_path_le hargv hpath
      -- The path is a part of the body, so four bytes hold the length of the text that tells it.
      have : maxBody + 44 < UInt32.size := by decide
      have hmessage := RequestFault.size_parentComponent path
      have hencode := Verdict.encode_failed_tooLarge (RequestFault.parentComponent path).message
        (by omega) (by omega)
      rw [hmessage, show 44 + path.utf8ByteSize + 5 = path.utf8ByteSize + 49 by omega] at hencode
      exact step_respond_error hwaiting hfront hencode

-- A loop that waits with one task, which has come to the verdict that its request is refused.
def refusing (r : Request Unit) (e : RequestFault) : Loop Unit :=
  { server := { maxParallel := 1, inFlight := [⟨0, r, some (.failed e.message)⟩], started := 1 }
    phase := .waiting }

theorem respond_of_refused_climbing
    : (Request.climbing "home" : Request Unit).validate = .error (.parentComponent "/../home")
        ∧ ∃ frame l,
            Verdict.decode (frame.drop lengthSize)
                = .ok (.failed "mount path may not contain '..' components: /../home")
              ∧ (refusing (Request.climbing "home") (.parentComponent "/../home")).step .respond
                  = some l
              ∧ l.server.outbuf = frame
              ∧ l.isEnded = false := by
  have hsize : (Request.climbing "home" : Request Unit).body.length ≤ maxBody := by
    rw [Request.length_body_climbing]
    decide
  have hrefused : (Request.climbing "home" : Request Unit).validate
      = .error (.parentComponent "/../home") := Request.validate_climbing rfl
  obtain ⟨_, hanswered, _⟩ := respond_of_refused (Request.climbing "home").body [] [] _ _ hsize
    (Request.decode_climbing "home" (by decide)) hrefused
  obtain ⟨frame, _, hread, hrespond⟩ := hanswered (by
    intro path hpath
    cases hpath
    decide)
  exact ⟨hrefused, frame, _, hread, hrespond (refusing _ _) 0 [] rfl rfl, rfl, rfl⟩

-- What is told about a request whose path takes almost the whole body is too large for a frame.
theorem not_exists_encode_of_refused
    : ¬ ∀ (body : List UInt8) (r : Request Unit) (left : List Unit) (e : RequestFault),
        body.length ≤ maxBody → Request.decode body [] = (.ok r, left) → r.validate = .error e →
          ∃ frame, (Verdict.failed e.message).encode = .ok frame := by
  intro h
  obtain ⟨pad, hsize, hnul⟩ := Request.exists_pad (maxBody - 52)
  have hmax : 52 ≤ maxBody := by decide
  have hlength : (Request.climbing pad : Request Unit).body.length ≤ maxBody := by
    rw [Request.length_body_climbing]
    omega
  obtain ⟨frame, hencode⟩ := h _ (Request.climbing pad) [] _ hlength
    (Request.decode_climbing pad (by omega)) (Request.validate_climbing hnul)
  obtain ⟨_, hfits, _⟩ := Verdict.decode_of_encode hencode
  have hpath : ("/../" ++ pad).utf8ByteSize = 4 + pad.utf8ByteSize := String.utf8ByteSize_append
  rw [Verdict.length_body_failed, RequestFault.size_parentComponent, hpath] at hfits
  omega

end Loop
end Supervisor
end Enclosure
