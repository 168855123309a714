import Enclosure.Proofs.Outcome.FirstClaim

/-!
This module contains what becomes of a message on its way over a page. Whoever reads it finds the
longest front that the page has room for, character by character as it was written.
-/

namespace Enclosure.Outcome

open Text (IsLongestFront)

namespace Page

variable {p : Page} {message : String}

-- Reading finds this text, and nothing of it has to be repaired.
structure Tells (p : Page) (text : String) : Prop where
  outcome : p.outcome = .failed text
  valid : String.fromUTF8? (p.message.take p.messageLength).toByteArray = some text

theorem written_storeAll {stores left : List Store} (h : Written p stores left)
    (hsize : p.message.length = messageCapacity) (horderly : Store.Orderly stores)
    : Written (p.storeAll left) stores []
        ∧ (p.storeAll left).message.length = messageCapacity := by
  induction left generalizing p with
  | nil => exact ⟨h, hsize⟩
  | cons s left ih =>
    apply ih (h.store hsize horderly)
    rw [length_message_store, hsize]

theorem take_message_of_shows (h : ShowsOutcome (.writeMessage message) p)
    (hsize : p.message.length = messageCapacity)
    : p.message.take p.messageLength = messageBytes message := by
  have hlength : p.messageLength = (messageBytes message).length :=
    h (.messageLength _) (by simp [Call.outcomeStores, messageStores])
  have hle := length_messageBytes_le message
  rw [hlength]
  apply List.ext_getElem
  . rw [List.length_take]
    omega
  . intro i _ hi
    have hbyte : p.message.getD i 0 = (messageBytes message)[i] :=
      h (.messageByte i _) (List.mem_append_left _ (List.mem_mapIdx.mpr ⟨i, hi, rfl⟩))
    rw [List.getElem_take, ← hbyte]
    exact List.getElem_eq_getD 0

theorem tells_of_shows (h : ShowsOutcome (.writeMessage message) p)
    (hsize : p.message.length = messageCapacity)
    : p.Tells (kept message) := by
  constructor
  case outcome =>
    have hrun := (yields_loadOutcome (w := .writeMessage message) rfl).run h
    rw [run_loadOutcome p hsize] at hrun
    exact Answer.outcome.inj (congrArg Prod.fst hrun)
  case valid => rw [take_message_of_shows h hsize, messageBytes_eq, Reader.fromUTF8?_toUTF8]

theorem writeMessage_empty (message : String)
    : ∃ p, writeMessage {} message = (p, true) ∧ p.Tells (kept message) := by
  have hsize : (Page.store {} (.progress .claimed)).message.length = messageCapacity :=
    List.length_replicate
  obtain ⟨hwritten, hsize⟩ := written_storeAll (.refl _ (messageStores message)) hsize
    (orderly_outcomeStores (.writeMessage message))
  exact ⟨_, rfl, tells_of_shows hwritten.holds hsize⟩

end Page

open Page

variable {message : String}

theorem Decided.madeBy {r : Race} (h : Decided r) {k : Nat}
    (hreturned : r.Returned k (.writeMessage message) (.written true))
    : (publication (w := .writeMessage message) rfl).MadeBy k [] r := by
  obtain h | ⟨w, o, hw, k', left, h⟩ := h
  . have hidle := h.idle k _ _ hreturned.remaining
    exact absurd rfl (hidle.not_contends rfl)
  . obtain ha | ⟨-, rfl, rfl⟩ := written_of_madeBy h hreturned rfl
    . contradiction
    . have hcall := h.call
      rw [hreturned.remaining] at hcall
      obtain rfl : Call.writeMessage message = w := congrArg Prod.fst (Option.some.inj hcall)
      cases hw
      exact h

namespace Race

/-- A message that decides the outcome of a page is read as its longest front that fits, with
nothing put in its place, and going back from the capacity finds where to cut. This holds as well
if other calls are made on the page at the same time. -/
theorem exists_longestFront_told (message : String)
    : ∃ front,
        IsLongestFront messageCapacity message front
          ∧ (message.utf8ByteSize ≤ messageCapacity → front = message)
          ∧ (messageCapacity < message.utf8ByteSize → messageCapacity ≤ front.utf8ByteSize + 3)
          ∧ Text.boundaryFrom message.toUTF8.data.toList
                (min message.toUTF8.data.toList.length messageCapacity)
              = front.utf8ByteSize
          ∧ (∃ p, writeMessage {} message = (p, true) ∧ p.Tells front)
          ∧ ∀ es es' k, (run {} es).Returned k (.writeMessage message) (.written true) →
              (run {} (es ++ es')).page.Tells front
                ∧ ∀ j a, (run {} es).activities.length ≤ j →
                    (run {} (es ++ es')).Returned j .outcome a → a = .outcome (.failed front) := by
  have hfront := isLongestFront_kept message
  refine ⟨kept message, hfront, hfront.eq_of_fits, hfront.capacity_le, hfront.boundaryFrom_eq,
    writeMessage_empty message, ?_⟩
  intro es es' k hreturned
  have hmade := (decided_run es).madeBy hreturned
  have hrun : run {} (es ++ es') = (run {} es).run es' := List.foldl_append
  rw [hrun]
  constructor
  . obtain ⟨left, hlater, hleft⟩ := hmade.run fun e (_ : e ∈ es') => admits_outcomeTopic e
    rw [hleft rfl] at hlater
    exact tells_of_shows hlater.page_shows hlater.size
  . intro j a hj hread
    cases read_of_complete hmade es' hj hread rfl
    rfl

-- One byte, and characters of three bytes each, the last of which lies across the capacity.
def longMessage : String :=
  "a" ++ .ofList (.replicate 1344 '€')

theorem exists_longestFront_told_of_longMessage
    : messageCapacity < longMessage.utf8ByteSize
        ∧ (∃ front, IsLongestFront messageCapacity longMessage front
            ∧ messageCapacity ≤ front.utf8ByteSize + 3)
        ∧ (run {} twoWriters).Returned 0 (.writeMessage "no") (.written true)
        ∧ (run {} (twoWriters ++ recordedThenRead 3)).page.Tells "no" := by
  have hlong : messageCapacity < longMessage.utf8ByteSize := by
    unfold longMessage
    rw [String.utf8ByteSize_append, Text.utf8ByteSize_replicate]
    decide
  have hreturned : (run {} twoWriters).Returned 0 (.writeMessage "no") (.written true) := by rfl
  obtain ⟨front, hfront, _, hcapacity, _⟩ := exists_longestFront_told longMessage
  obtain ⟨front', _, hfits, _, _, _, htold⟩ := exists_longestFront_told "no"
  rw [hfits (by decide +kernel)] at htold
  exact ⟨hlong, ⟨front, hfront, hcapacity hlong⟩, hreturned,
    (htold twoWriters (recordedThenRead 3) 0 hreturned).1⟩

end Race

end Enclosure.Outcome
