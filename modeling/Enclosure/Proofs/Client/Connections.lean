import Enclosure.Client.Connections
import Enclosure.Client.Scripted
import Enclosure.Proofs.Client.Ending

/-!
This module contains what keeps the connections of one client apart. A handle says which supervisor
it is for by a process number, and these numbers are unique only among the supervisors that have
not been reaped.
-/

namespace Enclosure

namespace Connection

structure Later (c c' : Connection) : Prop where
  token : c'.token = c.token
  finished : c.isFinished = true → c'.isFinished = true

theorem Later.refl (c : Connection) : c.Later c :=
  ⟨rfl, id⟩

theorem Later.trans {c c' c'' : Connection} (h : c.Later c') (h' : c'.Later c'') : c.Later c'' :=
  ⟨h'.token.trans h.token, h'.finished ∘ h.finished⟩

variable {σ F : Type}

def Advances (a : ClientM σ α) : Prop :=
  ∀ (c : Connection) (s : σ), c.Later (a c s).1.2

namespace Advances

theorem pure (x : α) : Advances (pure x : ClientM σ α) :=
  fun c _ => .refl c

theorem get : Advances (get : ClientM σ Connection) :=
  fun c _ => .refl c

theorem modify {f : Connection → Connection} (h : ∀ c : Connection, c.Later (f c))
    : Advances (modify f : ClientM σ PUnit) :=
  fun c _ => h c

theorem lift (a : StateM σ α) : Advances (liftM a : ClientM σ α) :=
  fun c _ => .refl c

theorem bind {a : ClientM σ α} {f : α → ClientM σ β} (h : Advances a) (h' : ∀ x, Advances (f x))
    : Advances (a >>= f) :=
  fun c s => (h c s).trans (h' _ _ _)

end Advances

variable [FileSystem σ] [Peer σ F]

theorem respectsEnding_advances : RespectsEnding σ σ F fun ⦃_⦄ a _ => Advances a where
  pure := .pure
  get := .get
  bind := .bind
  setClosed := .modify fun _ => ⟨rfl, id⟩
  setFinished := .modify fun _ => ⟨rfl, fun _ => rfl⟩
  close := .lift _
  kill := .lift _
  endsWithin _ := .lift _
  wait := .lift _
  errorOutput := .lift _
  removeTree _ _ := .lift _

theorem later_send (r : Request F) (c : Connection) (s : σ)
    : c.Later (send r c s).1.2
        ∧ ∀ handle, (send r c s).1.1 = .ok handle → handle.token = c.token := by
  obtain ⟨_, hsend⟩ | ⟨_, _, _, s', _, ⟨_, hsend⟩ | ⟨_, hsend⟩⟩ := send_cases r c s
  . rw [hsend]
    exact ⟨.refl c, nofun⟩
  . rw [hsend]
    refine ⟨⟨rfl, id⟩, ?_⟩
    rintro _ ⟨⟩
    rfl
  . rw [hsend]
    exact ⟨respectsEnding_advances.died c s', nofun⟩

theorem later_await (h : Handle) (c : Connection) (s : σ)
    : c.Later (await h c s).1.2
        ∧ ∀ result, (await h c s).1.1 = .ok result → h.token = c.token := by
  have hnext : c.Later { c with nextAwait := c.nextAwait + 1 } := ⟨rfl, id⟩
  obtain ⟨_, hawait⟩ | ⟨rfl, ⟨_, hawait⟩ | ⟨_, ⟨_, _, _, hawait⟩ | ⟨s', _, hawait⟩⟩⟩ :=
    await_cases h c s
  . rw [hawait]
    exact ⟨.refl c, nofun⟩
  . rw [hawait]
    exact ⟨hnext, fun _ _ => rfl⟩
  . rw [hawait]
    exact ⟨hnext, fun _ _ => rfl⟩
  . rw [hawait]
    exact ⟨hnext.trans (respectsEnding_advances.died _ s'), fun _ _ => rfl⟩

end Connection

namespace Connections

open Connection (Later)

variable {σ F : Type}

def connection? (w : Connections σ) (i : Nat) : Option Connection :=
  w.opened[i]?.map Opened.connection

def Grows (w w' : Connections σ) : Prop :=
  ∀ (i : Nat) (c : Connection), w.connection? i = some c →
    ∃ c', w'.connection? i = some c' ∧ c.Later c'

structure Touches (w w' : Connections σ) : Prop where
  grows : w.Grows w'
  old : ∀ (i : Nat) (c' : Connection), w'.connection? i = some c' →
    ∃ c, w.connection? i = some c ∧ c.Later c'
  tickets : w'.tickets = w.tickets
  redeemed : w'.redeemed = w.redeemed

structure Sound (w : Connections σ) : Prop where
  apart : ∀ (i j : Nat) (c c' : Connection), i ≠ j → w.connection? i = some c →
    w.connection? j = some c' → c.token = c'.token → c.isFinished = true ∨ c'.isFinished = true
  issued : ∀ (k : Nat) (t : Ticket), w.tickets[k]? = some t →
    ∃ c, w.connection? t.issuer = some c ∧ c.token = t.handle.token
  redeemed : ∀ i k, (i, k) ∈ w.redeemed →
    ∃ t c, w.tickets[k]? = some t ∧ w.connection? i = some c ∧ c.token = t.handle.token

variable {w w' : Connections σ}

theorem Grows.refl (w : Connections σ) : w.Grows w :=
  fun _ c h => ⟨c, h, .refl c⟩

theorem Grows.trans {w'' : Connections σ} (h : w.Grows w') (h' : w'.Grows w'') : w.Grows w'' := by
  intro i c hc
  obtain ⟨c', hc', hlater⟩ := h i c hc
  obtain ⟨c'', hc'', hlater'⟩ := h' i c' hc'
  exact ⟨c'', hc'', hlater.trans hlater'⟩

theorem touches_act {i : Nat} {a : ClientM σ α} {x : α} (h : w.act i a = some (x, w'))
    (hlater : ∀ (c : Connection) (s : σ), c.Later (a c s).1.2)
    : Touches w w' ∧ ∃ c s, w.connection? i = some c ∧ (a c s).1.1 = x := by
  unfold act at h
  split at h
  . next c s hi =>
    cases h
    have hlt := (List.getElem?_eq_some_iff.mp hi).1
    have hi : w.connection? i = some c := by rw [connection?, hi]; rfl
    have hset (j : Nat)
        : connection? { w with opened := w.opened.set i ⟨(a c s).1.2, (a c s).2, true⟩ } j
          = if j = i then some (a c s).1.2 else w.connection? j := by
      unfold connection?
      split
      . next hj =>
        rw [hj]
        simp [hlt]
      . next hj => rw [List.getElem?_set_ne (Ne.symm hj)]
    refine ⟨⟨?_, ?_, rfl, rfl⟩, c, s, hi, rfl⟩
    . intro j c' hc'
      rw [hset]
      split
      . next hj =>
        rw [hj, hi] at hc'
        cases hc'
        exact ⟨_, rfl, hlater c s⟩
      . exact ⟨c', hc', .refl c'⟩
    . intro j c' hc'
      rw [hset] at hc'
      split at hc'
      . next hj =>
        cases hc'
        rw [hj]
        exact ⟨c, hi, hlater c s⟩
      . exact ⟨c', hc', .refl c'⟩
  . contradiction

theorem connection?_letGo (w : Connections σ) (i j : Nat)
    : (w.letGo i).connection? j = w.connection? j := by
  unfold letGo connection?
  rw [List.getElem?_modify]
  cases w.opened[j]? with
  | none => rfl
  | some o =>
    by_cases hij : i = j
    . simp [hij]
    . simp [hij]

theorem touches_letGo (w : Connections σ) (i : Nat) : Touches w (w.letGo i) := by
  refine ⟨?_, ?_, rfl, rfl⟩
  . intro j c hc
    rw [connection?_letGo]
    exact ⟨c, hc, .refl c⟩
  . intro j c hc
    rw [connection?_letGo] at hc
    exact ⟨c, hc, .refl c⟩

theorem connection?_append (w : Connections σ) (o : Opened σ) (i : Nat)
    : connection? { w with opened := w.opened ++ [o] } i
        =
      if i = w.opened.length then some o.connection else w.connection? i := by
  unfold connection?
  obtain hlt | rfl | hgt := Nat.lt_trichotomy i w.opened.length
  . rw [List.getElem?_append_left hlt, if_neg (Nat.ne_of_lt hlt)]
  . simp
  . rw [if_neg (Nat.ne_of_gt hgt), List.getElem?_eq_none (Nat.le_of_lt hgt), List.getElem?_eq_none]
    rw [List.length_append, List.length_singleton]
    exact hgt

theorem lt_length {i : Nat} {c : Connection} (h : w.connection? i = some c)
    : i < w.opened.length := by
  obtain ⟨o, ho, _⟩ := Option.map_eq_some_iff.mp h
  exact (List.getElem?_eq_some_iff.mp ho).1

theorem grows_append (w : Connections σ) (o : Opened σ)
    : w.Grows { w with opened := w.opened ++ [o] } := by
  intro i c hc
  rw [connection?_append, if_neg (Nat.ne_of_lt (lt_length hc))]
  exact ⟨c, hc, .refl c⟩

theorem finished_of_isFree {token : UInt32} (h : w.isFree token = true) {i : Nat} {c : Connection}
    (hc : w.connection? i = some c) (htoken : c.token = token)
    : c.isFinished = true := by
  obtain ⟨o, ho, rfl⟩ := Option.map_eq_some_iff.mp hc
  have hfree := List.all_eq_true.mp h o (List.mem_of_getElem? ho)
  simpa [htoken] using hfree

theorem getElem?_spend (w : Connections σ) (k j : Nat)
    : (w.spend k).tickets[j]?
        =
      w.tickets[j]?.map fun t => if k = j then { t with isSpent := true } else t := by
  unfold spend
  rw [List.getElem?_modify]
  cases w.tickets[j]? with
  | none => rfl
  | some t => rfl

namespace Sound

theorem touch (h : w.Sound) (htouches : Touches w w') : w'.Sound where
  apart := by
    intro i j c c' hij hc hc' htoken
    obtain ⟨c₀, hc₀, hlater⟩ := htouches.old i c hc
    obtain ⟨c₁, hc₁, hlater'⟩ := htouches.old j c' hc'
    rw [hlater.token, hlater'.token] at htoken
    exact (h.apart i j c₀ c₁ hij hc₀ hc₁ htoken).imp hlater.finished hlater'.finished
  issued := by
    intro k t ht
    rw [htouches.tickets] at ht
    obtain ⟨c, hc, htoken⟩ := h.issued k t ht
    obtain ⟨c', hc', hlater⟩ := htouches.grows _ c hc
    exact ⟨c', hc', hlater.token.trans htoken⟩
  redeemed := by
    intro i k hmem
    rw [htouches.redeemed] at hmem
    obtain ⟨t, c, ht, hc, htoken⟩ := h.redeemed i k hmem
    obtain ⟨c', hc', hlater⟩ := htouches.grows i c hc
    rw [htouches.tickets]
    exact ⟨t, c', ht, hc', hlater.token.trans htoken⟩

theorem issue (h : w.Sound) {c : Connection} {i : Nat} {handle : Handle}
    (hc : w.connection? i = some c) (htoken : handle.token = c.token)
    : (w.issue handle i).Sound where
  apart := h.apart
  issued := by
    intro k t ht
    unfold Connections.issue at ht
    rw [List.getElem?_append] at ht
    split at ht
    . exact h.issued k t ht
    . rw [List.mem_singleton.mp (List.mem_of_getElem? ht)]
      exact ⟨c, hc, htoken.symm⟩
  redeemed := by
    intro i' k hmem
    obtain ⟨t, c, ht, hc, htoken⟩ := h.redeemed i' k hmem
    refine ⟨t, c, ?_, hc, htoken⟩
    unfold Connections.issue
    rw [List.getElem?_append_left (List.getElem?_eq_some_iff.mp ht).1, ht]

theorem spend (h : w.Sound) (k : Nat) : (w.spend k).Sound := by
  constructor
  case apart => exact h.apart
  case issued =>
    intro j t ht
    rw [getElem?_spend] at ht
    obtain ⟨t₀, ht₀, rfl⟩ := Option.map_eq_some_iff.mp ht
    obtain ⟨c, hc, htoken⟩ := h.issued j t₀ ht₀
    split
    . exact ⟨c, hc, htoken⟩
    . exact ⟨c, hc, htoken⟩
  case redeemed =>
    intro i j hmem
    obtain ⟨t, c, ht, hc, htoken⟩ := h.redeemed i j hmem
    rw [getElem?_spend, ht]
    refine ⟨_, c, rfl, hc, ?_⟩
    split
    . exact htoken
    . exact htoken

theorem redeem (h : w.Sound) {c : Connection} {i k : Nat} {t : Ticket} (ht : w.tickets[k]? = some t)
    (hc : w.connection? i = some c) (htoken : c.token = t.handle.token)
    : (w.redeem i k).Sound where
  apart := h.apart
  issued := h.issued
  redeemed := by
    intro i' k' hmem
    unfold Connections.redeem at hmem
    rw [List.mem_append, List.mem_singleton] at hmem
    obtain hmem | hmem := hmem
    . exact h.redeemed i' k' hmem
    . cases hmem
      exact ⟨t, c, ht, hc, htoken⟩

theorem opens (h : w.Sound) {connection : Connection} (peer : σ)
    (hfree : w.isFree connection.token = true)
    : Sound { w with opened := w.opened ++ [{ connection, peer }] } where
  apart := by
    intro i j c c' hij hc hc' htoken
    rw [connection?_append] at hc hc'
    split at hc
    . next hi =>
      rw [if_neg fun hj => hij (hi.trans hj.symm)] at hc'
      cases hc
      exact .inr (finished_of_isFree hfree hc' htoken.symm)
    . split at hc'
      . cases hc'
        exact .inl (finished_of_isFree hfree hc htoken)
      . exact h.apart i j c c' hij hc hc' htoken
  issued := by
    intro k t ht
    obtain ⟨c, hc, htoken⟩ := h.issued k t ht
    obtain ⟨c', hc', hlater⟩ := w.grows_append { connection, peer } t.issuer c hc
    exact ⟨c', hc', hlater.token.trans htoken⟩
  redeemed := by
    intro i k hmem
    obtain ⟨t, c, ht, hc, htoken⟩ := h.redeemed i k hmem
    obtain ⟨c', hc', hlater⟩ := w.grows_append { connection, peer } i c hc
    exact ⟨t, c', ht, hc', hlater.token.trans htoken⟩

end Sound

theorem sound_empty : ({} : Connections σ).Sound where
  apart := nofun
  issued := nofun
  redeemed := nofun

variable [FileSystem σ] [Peer σ F]

theorem sound_step (h : w.Sound) (e : Event σ F) : (w.step e).Sound ∧ w.Grows (w.step e) := by
  cases e with
  | opens s c ownDirectory searchPath log =>
    unfold step
    dsimp only
    split
    . split
      . next hfree => exact ⟨h.opens _ hfree, w.grows_append _⟩
      . exact ⟨h, .refl w⟩
    . exact ⟨h, .refl w⟩
  | sends i r =>
    unfold step
    dsimp only
    split
    . next handle w' hact =>
      obtain ⟨htouches, c, s, hc, hresult⟩ :=
        touches_act hact fun c s => (Connection.later_send r c s).1
      obtain ⟨c', hc', hlater⟩ := htouches.grows i c hc
      have htoken := (Connection.later_send r c s).2 handle hresult
      exact ⟨(h.touch htouches).issue hc' (htoken.trans hlater.token.symm), htouches.grows⟩
    . next hact =>
      obtain ⟨htouches, _⟩ := touches_act hact fun c s => (Connection.later_send r c s).1
      exact ⟨h.touch htouches, htouches.grows⟩
    . exact ⟨h, .refl w⟩
  | awaits i k =>
    unfold step
    dsimp only
    split
    . next handle issuer ht =>
      split
      . next result w' hact =>
        obtain ⟨htouches, c, s, hc, hresult⟩ :=
          touches_act hact fun c s => (Connection.later_await handle c s).1
        obtain ⟨c', hc', hlater⟩ := htouches.grows i c hc
        have htoken := (Connection.later_await handle c s).2 result hresult
        have ht : (w'.spend k).tickets[k]? = some ⟨handle, issuer, true⟩ := by
          rw [getElem?_spend, htouches.tickets, ht, Option.map_some, if_pos rfl]
        exact ⟨((h.touch htouches).spend k).redeem ht hc' (hlater.token.trans htoken.symm),
          htouches.grows⟩
      . next hact =>
        obtain ⟨htouches, _⟩ := touches_act hact fun c s => (Connection.later_await handle c s).1
        exact ⟨(h.touch htouches).spend k, htouches.grows⟩
      . exact ⟨h, .refl w⟩
    . exact ⟨h, .refl w⟩
  | givesUp i farewell =>
    unfold step
    dsimp only
    split
    . next x w' hact =>
      obtain ⟨htouches, _⟩ := touches_act hact (Connection.respectsEnding_advances.giveUp farewell)
      have hletGo := w'.touches_letGo i
      exact ⟨(h.touch htouches).touch hletGo, htouches.grows.trans hletGo.grows⟩
    . exact ⟨h, .refl w⟩

theorem sound_run (h : w.Sound) (es : List (Event σ F))
    : (w.run es).Sound ∧ w.Grows (w.run es) := by
  induction es generalizing w with
  | nil => exact ⟨h, .refl w⟩
  | cons e es ih =>
    obtain ⟨hstep, hgrows⟩ := sound_step h e
    obtain ⟨hrun, hgrows'⟩ := ih hstep
    exact ⟨hrun, hgrows.trans hgrows'⟩

/-- A redeemed handle is for the supervisor that the redeeming connection has, by its number. If
another connection has issued it, the two supervisors have had this number one after the other. -/
theorem issuer_eq_or_reaped_before (es : List (Event σ F)) {i k : Nat}
    (h : (i, k) ∈ (run {} es).redeemed)
    : ∃ t c c',
        (run {} es).tickets[k]? = some t
          ∧ (run {} es).connection? i = some c
          ∧ (run {} es).connection? t.issuer = some c'
          ∧ c.token = c'.token
          ∧ (t.issuer = i
            ∨ ∀ front, front <+: es → ∀ c c',
                (run {} front).connection? i = some c →
                (run {} front).connection? t.issuer = some c' →
                  c.isFinished = true ∨ c'.isFinished = true) := by
  have hsound := (sound_run sound_empty es).1
  obtain ⟨t, c, ht, hc, htoken⟩ := hsound.redeemed i k h
  obtain ⟨c', hc', htoken'⟩ := hsound.issued k t ht
  have htoken := htoken.trans htoken'.symm
  refine ⟨t, c, c', ht, hc, hc', htoken, ?_⟩
  by_cases hissuer : t.issuer = i
  . exact .inl hissuer
  . right
    rintro front ⟨back, rfl⟩ c₀ c₁ hc₀ hc₁
    -- The tokens have not changed since then.
    have hfront := (sound_run sound_empty front).1
    have hgrows := (sound_run hfront back).2
    have hrun : run {} (front ++ back) = (run {} front).run back := List.foldl_append
    rw [hrun] at hc hc'
    obtain ⟨c₂, hc₂, hlater⟩ := hgrows i c₀ hc₀
    obtain ⟨c₃, hc₃, hlater'⟩ := hgrows t.issuer c₁ hc₁
    rw [hc] at hc₂
    rw [hc'] at hc₃
    cases hc₂
    cases hc₃
    rw [hlater.token, hlater'.token] at htoken
    exact hfront.apart i t.issuer c₀ c₁ (Ne.symm hissuer) hc₀ hc₁ htoken

-- A supervisor whose directory passes the checks, and which does as it is told.
def obedient (script : List ScriptStep) : Scripted where
  files := (({} : FileTree).withFile ["g", "cgroup.controllers"] "cpu memory pids").withFile
    ["g", "cgroup.subtree_control"] "cpu memory pids"
  program := "p"
  script := script

def opening (script : List ScriptStep) : Event Scripted Unit :=
  .opens (obedient script) { supervisorPath := some "p", groupRoot := some "/g" } none none none

-- The first connection is given up with a handle left, and the supervisor of the second one gets
-- the same process number.
def secondLife : List (Event Scripted Unit) :=
  [opening [.read], .sends 0 { argv := [""] }, .givesUp 0 .shutdown,
    opening [.read, .write [6, 0, 0, 0, 1, 1, 0, 0, 0, 97]], .sends 1 { argv := [""] }, .awaits 1 0]

theorem redeemed_secondLife : (1, 0) ∈ (run {} secondLife).redeemed := by
  have hredeemed : (run {} secondLife).redeemed = [(1, 0)] := by rfl
  rw [hredeemed]
  exact List.mem_singleton_self _

theorem issuer_eq_or_reaped_before_of_secondLife
    : (1, 0) ∈ (run {} secondLife).redeemed
        ∧ ∃ t c c',
            (run {} secondLife).tickets[0]? = some t
              ∧ (run {} secondLife).connection? 1 = some c
              ∧ (run {} secondLife).connection? t.issuer = some c'
              ∧ c.token = c'.token
              ∧ (t.issuer = 1
                ∨ ∀ front, front <+: secondLife → ∀ c c',
                    (run {} front).connection? 1 = some c →
                    (run {} front).connection? t.issuer = some c' →
                      c.isFinished = true ∨ c'.isFinished = true) :=
  ⟨redeemed_secondLife, issuer_eq_or_reaped_before secondLife redeemed_secondLife⟩

theorem not_issuer_eq
    : ¬ ∀ (es : List (Event Scripted Unit)) (i k : Nat), (i, k) ∈ (run {} es).redeemed →
        ∀ t, (run {} es).tickets[k]? = some t → t.issuer = i := by
  intro h
  have hticket : (run {} secondLife).tickets[0]? = some ⟨⟨0, 1⟩, 0, true⟩ := by rfl
  have hissuer : 0 = 1 := h secondLife 1 0 redeemed_secondLife _ hticket
  exact absurd hissuer (by decide)

end Connections

end Enclosure
