import RemoteCodex.Lib.Trace
import RemoteCodex.Agent.PerfTrace

namespace RemoteCodex
set_option autoImplicit true
open Trace
namespace Perf

/-! The admission word: a number of calls, under the bit that closes it. -/

theorem closed_iff (u : UInt64) : u &&& closedBit ≠ 0 ↔ 2 ^ 63 ≤ u.toNat := by
  have hbit : u.toNat.testBit 63 = decide (2 ^ 63 ≤ u.toNat) := by
    have hu := u.toNat_lt
    rw [Nat.testBit_eq_decide_div_mod_eq, decide_eq_decide]
    omega
  rw [ne_eq, ← UInt64.toNat_inj, UInt64.toNat_and]
  show ¬ u.toNat &&& 2 ^ 63 = 0 ↔ _
  constructor
  · intro h
    by_contra hlt
    refine h (Nat.eq_of_testBit_eq fun i => ?_)
    rw [Nat.testBit_and, Nat.testBit_two_pow, Nat.zero_testBit]
    by_cases hi : 63 = i
    · rw [← hi, hbit, decide_eq_false hlt, Bool.false_and]
    · rw [decide_eq_false hi, Bool.and_false]
  · intro h h0
    have hand := congrArg (Nat.testBit · 63) h0
    simp only [Nat.testBit_and, Nat.testBit_two_pow_self, hbit, decide_eq_true h, Bool.and_self,
      Nat.zero_testBit, Bool.true_eq_false] at hand

theorem mask_toNat (u : UInt64) : (u &&& producerMask).toNat = u.toNat % 2 ^ 63 := by
  rw [UInt64.toNat_and]
  show u.toNat &&& (2 ^ 63 - 1) = _
  rw [Nat.and_two_pow_sub_one_eq_mod]

theorem close_toNat {u : UInt64} (h : u.toNat < 2 ^ 63) :
    (u ||| closedBit).toNat = 2 ^ 63 + u.toNat := by
  rw [UInt64.toNat_or, Nat.or_comm]
  have hor := Nat.two_pow_add_eq_or_of_lt h 1
  rw [Nat.mul_one] at hor
  exact hor.symm

namespace PerfTrace

def inFlight (t : PerfTrace) : Nat := t.calls.countP Call.inFlight

def pending (t : PerfTrace) : Nat := t.calls.countP Call.pending

/-- A call that takes a step. -/
theorem countP_setCall {t : PerfTrace} {c : Call} (h : t.calls[i]? = some c) (p : Call → Bool)
    (c' : Call) : (t.setCall i c').calls.countP p + (if p c then 1 else 0) =
      t.calls.countP p + if p c' then 1 else 0 := by
  obtain ⟨hi, hc⟩ := List.getElem?_eq_some_iff.1 h
  have hpos : (if p c then 1 else 0) ≤ t.calls.countP p := by
    split
    · next hp => exact List.countP_pos_iff.2 ⟨c, hc ▸ List.getElem_mem hi, hp⟩
    · exact Nat.zero_le _
  rw [setCall, List.countP_set hi, hc]
  omega

theorem not_inFlight {t : PerfTrace} {i : Nat} {c : Call} (h : t.calls[i]? = some c)
    (hzero : t.inFlight = 0) : c.inFlight = false :=
  Bool.not_eq_true _ ▸ List.countP_eq_zero.1 hzero c (List.mem_of_getElem? h)

/-- What holds in every state; `word` and `balance` are the accounts. -/
structure Inv (t : PerfTrace) : Prop where
  word : t.admission.toNat = (if t.finisher = .running then 0 else 2 ^ 63) + t.inFlight
  room : t.inFlight < 2 ^ 63
  balance : t.admittedCount =
    t.writer.global.count + t.queue.length + t.dropped + t.pending
  quiet : t.finisher.closeOk = true → t.inFlight = 0
  shutdown : t.shutdown = true → t.finisher.hasSignalled = true
  senders : t.sendersGone = true → t.finisher.hasSignalled = true
  leaving : t.writerAt.leaving = true → t.finisher.hasSignalled = true
  drained : t.finisher.closeOk = true → t.writerAt.drained = true → t.queue = []
  footer : ∀ f, t.footer = some f → t.writerAt.succeeded = true ∧
    ∃ dropped, f = t.writer.summary dropped ∧
      (t.finisher.closeOk = true → dropped = t.dropped)
  written : t.writerAt.succeeded = true → t.footer.isSome = true
  success : ∀ ok, t.finisher = .returned ok true → ok = true ∧ t.writerAt.succeeded = true
  sound : t.writer.Sound
  exact : t.writerAt.failed = false → t.writer.Exact

theorem inv_init (rawLimit : Nat) : (init rawLimit).Inv where
  word := rfl
  room := show 0 < 2 ^ 63 by decide
  balance := rfl
  quiet := nofun
  shutdown := nofun
  senders := nofun
  leaving := nofun
  drained := nofun
  footer := nofun
  written := nofun
  success := nofun
  sound := TraceWriter.sound_new rawLimit
  exact _ := rfl

/-- Calls in flight include those that are pending. -/
theorem pending_le (t : PerfTrace) : t.pending ≤ t.inFlight := by
  refine List.countP_mono_left fun c _ h => ?_
  cases c <;> first | rfl | cases h

def one (b : Bool) : Nat := if b then 1 else 0

/-- A step of a call keeps the accounts if it changes them by what it changes itself. -/
theorem Inv.call {t : PerfTrace} (h : t.Inv) {c : Call} (c' : Call) (hc : t.calls[i]? = some c)
    {admission : UInt64} {queue : List Event} {dropped admittedCount : Nat}
    (hword : admission.toNat + one c.inFlight = t.admission.toNat + one c'.inFlight)
    (hroom : c'.inFlight = true → c.inFlight = false → t.inFlight + 1 < 2 ^ 63)
    (hbalance : admittedCount + t.queue.length + t.dropped + one c.pending =
      t.admittedCount + queue.length + dropped + one c'.pending)
    (hquiet : t.finisher.closeOk = true →
      c'.inFlight = false ∧ queue = t.queue ∧ dropped = t.dropped) :
    Inv { t with calls := t.calls.set i c', admission, dropped, queue, admittedCount } := by
  have hflight := countP_setCall hc Call.inFlight c'
  have hpending := countP_setCall hc Call.pending c'
  change (t.calls.set i c').countP Call.inFlight + one c.inFlight =
    t.inFlight + one c'.inFlight at hflight
  change (t.calls.set i c').countP Call.pending + one c.pending =
    t.pending + one c'.pending at hpending
  have hold := h.word
  have hcount := h.balance
  have hsize := h.room
  refine { h with word := ?_, room := ?_, balance := ?_, quiet := ?_, drained := ?_, footer := ?_ }
  · show admission.toNat = (if t.finisher = .running then 0 else 2 ^ 63) +
      (t.calls.set i c').countP Call.inFlight
    omega
  · show (t.calls.set i c').countP Call.inFlight < 2 ^ 63
    cases hf : c.inFlight <;> cases hf' : c'.inFlight <;>
      simp only [hf, hf', one, if_true, Bool.false_eq_true, if_false] at hflight
    · omega
    · have := hroom hf' hf
      omega
    · omega
    · omega
  · show admittedCount = t.writer.global.count + queue.length + dropped +
      (t.calls.set i c').countP Call.pending
    omega
  · intro hok
    show (t.calls.set i c').countP Call.inFlight = 0
    have hzero := h.quiet hok
    rw [(hquiet hok).1, hzero] at hflight
    exact Nat.eq_zero_of_add_eq_zero_right hflight
  · intro hok hdrained
    exact (hquiet hok).2.1.trans (h.drained hok hdrained)
  · intro f hf
    obtain ⟨hsucceeded, d, hd, hsame⟩ := h.footer f hf
    exact ⟨hsucceeded, d, hd, fun hok => (hsame hok).trans (hquiet hok).2.2.symm⟩

/-- A step of a call that changes nothing else. -/
theorem Inv.setCall {t : PerfTrace} (h : t.Inv) {c c' : Call} (hc : t.calls[i]? = some c)
    (hflight : c'.inFlight = c.inFlight) (hpending : c'.pending = c.pending) :
    (t.setCall i c').Inv := by
  refine h.call c' hc (by rw [hflight]) ?_ (by rw [hpending]) fun hok => ⟨?_, rfl, rfl⟩
  · intro hin hout
    rw [hflight, hout] at hin
    cases hin
  · rw [hflight]
    exact not_inFlight hc (h.quiet hok)

/-- A new call. -/
theorem Inv.enter {t : PerfTrace} (h : t.Inv) (e : Event) :
    Inv { t with calls := t.calls ++ [.entered e] } := by
  have hcount (p : Call → Bool) (hp : p (Call.entered e) = false) :
      (t.calls ++ [Call.entered e]).countP p = t.calls.countP p := by
    rw [List.countP_append, List.countP_singleton, hp, if_neg Bool.false_ne_true, Nat.add_zero]
  have hflight := hcount Call.inFlight rfl
  have hpending := hcount Call.pending rfl
  refine { h with word := ?_, room := ?_, balance := ?_, quiet := ?_ }
  · rw [inFlight, hflight]
    exact h.word
  · rw [inFlight, hflight]
    exact h.room
  · rw [pending, hpending]
    exact h.balance
  · rw [inFlight, hflight]
    exact h.quiet

/-- A call is admitted only while the trace is open, and not past the last one that fits. -/
theorem Inv.tryAdmit {t : PerfTrace} (h : t.Inv) (hc : t.calls[i]? = some (.turn e current))
    (spurious : Bool) : (t.tryAdmit i e current spurious).Inv := by
  unfold PerfTrace.tryAdmit
  split
  · exact h.setCall hc rfl rfl
  · next hopen =>
    split
    · exact h.setCall hc rfl rfl
    · next hexchange =>
      obtain ⟨hbit, hfull⟩ := not_or.1 hopen
      have hcurrent : t.admission = current := not_not.1 (not_or.1 hexchange).2
      have hlow : t.admission.toNat < 2 ^ 63 := by
        rw [← hcurrent, closed_iff] at hbit
        omega
      have hword := h.word
      have hrunning : t.finisher = .running := by
        by_contra hne
        rw [if_neg hne] at hword
        omega
      rw [if_pos hrunning, Nat.zero_add] at hword
      have hmask : (current &&& producerMask).toNat ≠ producerMask.toNat :=
        fun he => hfull (UInt64.toNat_inj.1 he)
      have hval : producerMask.toNat = 2 ^ 63 - 1 := rfl
      rw [mask_toNat, ← hcurrent, hval] at hmask
      have hnew : (current + 1).toNat = t.admission.toNat + 1 := by
        rw [← hcurrent, UInt64.toNat_add]
        show (t.admission.toNat + 1) % 2 ^ 64 = _
        omega
      refine h.call (.admitted e) hc hnew (fun _ _ => by omega) ?_ ?_
      · show t.admittedCount + 1 + t.queue.length + t.dropped + 0 =
          t.admittedCount + t.queue.length + t.dropped + 1
        omega
      · intro hok
        rw [hrunning] at hok
        cases hok

/-- A call in flight keeps the trace from being closed. -/
theorem Inv.busy {t : PerfTrace} (h : t.Inv) {i : Nat} {c : Call} (hc : t.calls[i]? = some c)
    (hflight : c.inFlight = true) (hok : t.finisher.closeOk = true) : False := by
  have hnot := not_inFlight hc (h.quiet hok)
  rw [hflight] at hnot
  cases hnot

/-- An event is sent, or the call has still to count it. -/
theorem Inv.send {t : PerfTrace} (h : t.Inv) (hc : t.calls[i]? = some (.admitted e)) :
    (t.send i e).Inv := by
  have hrefused : (t.setCall i (.refused e)).Inv := h.setCall hc rfl rfl
  unfold PerfTrace.send
  split
  · exact hrefused
  · split
    · refine h.call .releasing hc rfl nofun ?_ fun hok => (h.busy hc rfl hok).elim
      rw [List.length_append]
      show t.admittedCount + t.queue.length + t.dropped + 1 =
        t.admittedCount + (t.queue.length + 1) + t.dropped + 0
      omega
    · exact hrefused

theorem Inv.drop {t : PerfTrace} (h : t.Inv) (hc : t.calls[i]? = some (.refused e)) :
    Inv { t.setCall i .releasing with dropped := t.dropped + 1 } := by
  refine h.call .releasing hc rfl nofun ?_ fun hok => (h.busy hc rfl hok).elim
  show t.admittedCount + t.queue.length + t.dropped + 1 =
    t.admittedCount + t.queue.length + (t.dropped + 1) + 0
  omega

theorem Inv.release {t : PerfTrace} (h : t.Inv) (hc : t.calls[i]? = some .releasing) :
    Inv { t.setCall i .returned with admission := t.admission - 1 } := by
  have hpos : 0 < t.inFlight := List.countP_pos_iff.2 ⟨_, List.mem_of_getElem? hc, rfl⟩
  have hword := h.word
  have hone : (1 : UInt64) ≤ t.admission := by
    rw [UInt64.le_iff_toNat_le]
    show 1 ≤ t.admission.toNat
    omega
  refine h.call .returned hc ?_ nofun rfl fun hok => (h.busy hc rfl hok).elim
  rw [UInt64.toNat_sub_of_le _ _ hone]
  show t.admission.toNat - 1 + 1 = t.admission.toNat + 0
  omega

theorem leaving_of_drained {w : WriterAt} (h : w.drained = true) : w.leaving = true := by
  cases w <;> first | rfl | exact h

theorem drained_of_succeeded {w : WriterAt} (h : w.succeeded = true) : w.drained = true := by
  cases w <;> first | exact h | cases h

theorem leaving_of_succeeded {w : WriterAt} (h : w.succeeded = true) : w.leaving = true := by
  cases w <;> first | exact h | cases h

/-- A finisher that has not signalled has nothing to do with the writer. -/
theorem Inv.unsignalled {t : PerfTrace} (h : t.Inv) (hs : t.finisher.hasSignalled = false) :
    t.shutdown = false ∧ t.sendersGone = false ∧ t.writerAt.leaving = false ∧
      t.footer = none := by
  have hnot {b : Bool} (he : (b = true → t.finisher.hasSignalled = true)) : b = false := by
    rw [← Bool.not_eq_true]
    intro hb
    rw [he hb] at hs
    cases hs
  have hleaving := hnot h.leaving
  refine ⟨hnot h.shutdown, hnot h.senders, hleaving, ?_⟩
  cases hfooter : t.footer with
  | none => rfl
  | some f =>
    rw [leaving_of_succeeded (h.footer f hfooter).1] at hleaving
    cases hleaving

theorem Inv.close {t : PerfTrace} (h : t.Inv) (hf : t.finisher = .running) :
    Inv { t with admission := t.admission ||| closedBit, finisher := .closing } := by
  obtain ⟨hshutdown, hsenders, hleaving, hfooter⟩ := h.unsignalled (by rw [hf]; rfl)
  have hword := h.word
  have hroom := h.room
  rw [if_pos hf, Nat.zero_add] at hword
  have hclosed : (t.admission ||| closedBit).toNat = 2 ^ 63 + t.inFlight := by
    rw [close_toNat (by omega), hword]
  refine { h with word := hclosed, quiet := nofun, shutdown := ?_, senders := ?_, leaving := ?_,
                  drained := nofun, footer := ?_, success := nofun }
  · exact fun hb => absurd (hshutdown.symm.trans hb) Bool.false_ne_true
  · exact fun hb => absurd (hsenders.symm.trans hb) Bool.false_ne_true
  · exact fun hb => absurd (hleaving.symm.trans hb) Bool.false_ne_true
  · intro f hsome
    cases hfooter.symm.trans hsome

/-- The finisher goes on, after the trace is closed. Its success is known before it signals. -/
theorem Inv.goOn {t : PerfTrace} (h : t.Inv) {finisher : Finisher} {shutdown : Bool}
    (hrunning : t.finisher ≠ .running) (hrunning' : finisher ≠ .running)
    (hquiet : finisher.closeOk = true → t.inFlight = 0)
    (hsignalled : t.finisher.hasSignalled = true → finisher.hasSignalled = true)
    (hshutdown : shutdown = true → finisher.hasSignalled = true)
    (hknown : finisher.closeOk = true →
      t.finisher.closeOk = true ∨ t.finisher.hasSignalled = false)
    (hsuccess : ∀ ok, finisher = .returned ok true → ok = true ∧ t.writerAt.succeeded = true) :
    Inv { t with finisher, shutdown } := by
  have hword := h.word
  rw [if_neg hrunning] at hword
  refine { h with word := ?_, quiet := hquiet, shutdown := hshutdown, senders := ?_, leaving := ?_,
                  drained := ?_, footer := ?_, success := hsuccess }
  · show t.admission.toNat = (if finisher = .running then 0 else 2 ^ 63) + t.inFlight
    rw [if_neg hrunning', hword]
  · exact fun hb => hsignalled (h.senders hb)
  · exact fun hb => hsignalled (h.leaving hb)
  · intro hok hdrained
    rcases hknown hok with hbefore | hnot
    · exact h.drained hbefore hdrained
    · have hleaving := (h.unsignalled hnot).2.2.1
      rw [leaving_of_drained hdrained] at hleaving
      cases hleaving
  · intro f hf
    obtain ⟨hsucceeded, d, hd, hsame⟩ := h.footer f hf
    refine ⟨hsucceeded, d, hd, fun hok => ?_⟩
    rcases hknown hok with hbefore | hnot
    · exact hsame hbefore
    · cases (h.unsignalled hnot).2.2.2.symm.trans hf

/-- `close_producers` ends. -/
theorem Inv.closed {t : PerfTrace} (h : t.Inv) (hf : t.finisher = .closing)
    (hquiet : ok = true → t.inFlight = 0) : Inv { t with finisher := .closed ok } := by
  have hsignalled : t.finisher.hasSignalled = false := by
    rw [hf]
    rfl
  have hnot {b : Bool} (hb : t.finisher.hasSignalled = true) : b = true :=
    absurd (hsignalled.symm.trans hb) Bool.false_ne_true
  have hshutdown (hb : t.shutdown = true) : False :=
    absurd ((h.unsignalled hsignalled).1.symm.trans hb) Bool.false_ne_true
  exact h.goOn (by rw [hf]; exact nofun) nofun hquiet hnot (fun hb => (hshutdown hb).elim)
    (fun _ => .inr hsignalled) nofun

theorem Inv.signal {t : PerfTrace} (h : t.Inv) (hf : t.finisher = .closed ok) (sent : Bool)
    (shutdown : Bool) : Inv { t with finisher := .signalled ok sent, shutdown } := by
  have hquiet := h.quiet
  rw [hf] at hquiet
  exact h.goOn (by rw [hf]; exact nofun) nofun hquiet (fun _ => rfl) (fun _ => rfl)
    (fun hok => .inl (by rw [hf]; exact hok)) nofun

theorem Inv.return {t : PerfTrace} (h : t.Inv) (hf : t.finisher = .signalled ok sent)
    (hresult : result = true → ok = true ∧ t.writerAt.succeeded = true) :
    Inv { t with finisher := .returned ok result } := by
  have hquiet := h.quiet
  rw [hf] at hquiet
  refine h.goOn (by rw [hf]; exact nofun) nofun hquiet (fun _ => rfl) (fun _ => rfl)
    (fun hok => .inl (by rw [hf]; exact hok)) ?_
  intro ok' he
  cases he
  exact hresult rfl

/-- All calls are released once the number in the word is zero. -/
theorem Inv.inFlight_zero {t : PerfTrace} (h : t.Inv) (hmask : t.admission &&& producerMask = 0) :
    t.inFlight = 0 := by
  have hzero := congrArg UInt64.toNat hmask
  rw [mask_toNat, h.word] at hzero
  have hroom := h.room
  have hval : (0 : UInt64).toNat = 0 := rfl
  rw [hval] at hzero
  split at hzero <;> omega

theorem Inv.no_footer {t : PerfTrace} (h : t.Inv) (hw : t.writerAt.succeeded = false) :
    t.footer = none := by
  cases hf : t.footer with
  | none => rfl
  | some f => cases hw.symm.trans (h.footer f hf).1

/-- The writer takes an event in its loop. -/
theorem Inv.observe {t : PerfTrace} (h : t.Inv) (hq : t.queue = e :: rest) {next : WriterAt}
    (hnow : t.writerAt = .receiving ∧ next = .polling ∨
      t.writerAt = .draining ∧ next = .draining) (failure : Option Nat) :
    (t.observe failure e rest next).Inv := by
  have hactive : t.writerAt.succeeded = false ∧ t.writerAt.failed = false := by
    rcases hnow with ⟨hw, -⟩ | ⟨hw, -⟩ <;> rw [hw] <;> exact ⟨rfl, rfl⟩
  have hnext : next.succeeded = false ∧ next.drained = false := by
    rcases hnow with ⟨-, rfl⟩ | ⟨-, rfl⟩ <;> exact ⟨rfl, rfl⟩
  obtain ⟨hsound, hexact⟩ := h.sound.observe (h.exact hactive.2) failure e
  have hglobal := t.writer.observe_global failure e
  have hfooter := h.no_footer hactive.1
  have hbalance := h.balance
  unfold PerfTrace.observe
  generalize t.writer.observe failure e = outcome at *
  obtain ⟨writer, ok⟩ := outcome
  refine { h with balance := ?_, leaving := ?_, drained := ?_, footer := ?_, written := ?_,
                  success := ?_, sound := hsound, exact := ?_ }
  · show t.admittedCount = writer.global.count + rest.length + t.dropped + t.pending
    rw [show writer.global = _ from hglobal, Histogram.count_record]
    rw [hq, List.length_cons] at hbalance
    omega
  · intro hleaving
    refine h.leaving ?_
    cases ok with
    | false => cases hleaving
    | true =>
      rcases hnow with ⟨-, rfl⟩ | ⟨hw, -⟩
      · cases hleaving
      · rw [hw]
        rfl
  · intro _ hdrained
    cases ok with
    | false => cases hdrained
    | true => cases hnext.2.symm.trans hdrained
  · intro f hf
    cases hfooter.symm.trans hf
  · intro hsucceeded
    cases ok with
    | false => cases hsucceeded
    | true => cases hnext.1.symm.trans hsucceeded
  · intro ok' hreturned
    cases hactive.1.symm.trans (h.success ok' hreturned).2
  · intro hfailed
    cases ok with
    | false => cases hfailed
    | true => exact hexact rfl

/-- The writer goes on without a footer. -/
theorem Inv.move {t : PerfTrace} (h : t.Inv) {current writerAt : WriterAt} (shutdown : Bool)
    (hw : t.writerAt = current) (hnow : current.succeeded = false ∧ current.failed = false)
    (hnext : writerAt.succeeded = false) (hshutdown : shutdown = true → t.shutdown = true)
    (hleaving : writerAt.leaving = true → t.finisher.hasSignalled = true)
    (hdrained : writerAt.drained = true → t.queue = []) :
    Inv { t with writerAt, shutdown } := by
  subst hw
  refine { h with shutdown := fun hb => h.shutdown (hshutdown hb), leaving := hleaving,
                  drained := fun _ => hdrained, footer := ?_, written := ?_, success := ?_,
                  exact := fun _ => h.exact hnow.2 }
  · intro f hf
    cases (h.no_footer hnow.1).symm.trans hf
  · intro hsucceeded
    cases hnext.symm.trans hsucceeded
  · intro ok hreturned
    cases hnow.1.symm.trans (h.success ok hreturned).2

/-- The writer ends, with the footer or without. -/
theorem Inv.finish {t : PerfTrace} (h : t.Inv) (hw : t.writerAt = .finishing) :
    Inv { t with footer := some (t.writer.summary t.dropped), writerAt := .returned true } ∧
      Inv { t with writerAt := .returned false } := by
  have hnow : t.writerAt.failed = false := by
    rw [hw]
    rfl
  have hsignalled := h.leaving (by rw [hw]; rfl)
  constructor
  · refine { h with leaving := fun _ => hsignalled, drained := ?_, footer := ?_,
                    written := fun _ => rfl, success := ?_, exact := fun _ => h.exact hnow }
    · exact fun hok _ => h.drained hok (by rw [hw]; rfl)
    · intro f hf
      cases hf
      exact ⟨rfl, t.dropped, rfl, fun _ => rfl⟩
    · exact fun ok hreturned => ⟨(h.success ok hreturned).1, rfl⟩
  · exact h.move t.shutdown hw ⟨rfl, rfl⟩ rfl id nofun nofun

theorem Inv.exit {t : PerfTrace} (h : t.Inv) (hw : t.writerAt = .returned ok) :
    Inv { t with writerAt := .gone ok } := by
  obtain ⟨hword, hroom, hbalance, hquiet, hshutdown, hsenders, hleaving, hdrained, hfooter,
    hwritten, hsuccess, hsound, hexact⟩ := h
  rw [hw] at hleaving hdrained hfooter hwritten hsuccess hexact
  exact ⟨hword, hroom, hbalance, hquiet, hshutdown, hsenders, hleaving, hdrained, hfooter,
    hwritten, hsuccess, hsound, hexact⟩

/-- Every step keeps the accounts. -/
theorem Inv.step {t t' : PerfTrace} (h : t.Inv) (hs : t.step a = some t') : t'.Inv := by
  cases step_moves hs with
  | record hopen sessionId sequence bytes micros => exact h.enter _
  | load hc => exact h.setCall hc rfl rfl
  | tryAdmit hc spurious => exact h.tryAdmit hc spurious
  | send hc => exact h.send hc
  | drop hc => exact h.drop hc
  | release hc => exact h.release hc
  | close hf => exact h.close hf
  | emptied hf hmask expired => exact h.closed hf fun _ => h.inFlight_zero hmask
  | gaveUp hf hmask => exact h.closed hf nofun
  | stillPolling | stillWaiting => exact h
  | signalGone hf hw => exact h.signal hf false t.shutdown
  | signal hf => exact h.signal hf true true
  | joined hf hw expired =>
    refine h.return hf fun hresult => ?_
    simp only [Bool.and_eq_true] at hresult
    obtain ⟨⟨hwritten, hok⟩, -⟩ := hresult
    rw [hw]
    exact ⟨hok, hwritten⟩
  | leftAlone hf => exact h.return hf nofun
  | dropSenders hf hreturned => exact { h with senders := fun _ => by rw [hf]; rfl }
  | shutDown hw hshutdown =>
    exact h.move _ hw ⟨rfl, rfl⟩ rfl nofun (fun _ => h.shutdown hshutdown) nofun
  | disconnected hw hgone =>
    exact h.move _ hw ⟨rfl, rfl⟩ rfl id (fun _ => h.senders hgone) nofun
  | listen hw => exact h.move _ hw ⟨rfl, rfl⟩ rfl id nofun nofun
  | receive hw hq failure => exact h.observe hq (.inl ⟨hw, rfl⟩) failure
  | receiveNone hw hq failure =>
    split
    · next hgone => exact h.move _ hw ⟨rfl, rfl⟩ rfl id (fun _ => h.senders hgone) fun _ => hq
    · exact h.move _ hw ⟨rfl, rfl⟩ rfl id nofun nofun
  | drain hw hq failure => exact h.observe hq (.inr ⟨hw, rfl⟩) failure
  | drainNone hw hq failure =>
    exact h.move _ hw ⟨rfl, rfl⟩ rfl id (fun _ => h.leaving (by rw [hw]; rfl)) fun _ => hq
  | finish hw => exact (h.finish hw).1
  | finishFailed hw => exact (h.finish hw).2
  | exit hw => exact h.exit hw

theorem tryAdmit_writer (t : PerfTrace) (i : Nat) (e : Event) (current : UInt64) (spurious : Bool) :
    (t.tryAdmit i e current spurious).writer = t.writer := by
  unfold PerfTrace.tryAdmit
  split_ifs <;> rfl

theorem send_writer (t : PerfTrace) (i : Nat) (e : Event) : (t.send i e).writer = t.writer := by
  unfold PerfTrace.send
  split
  · rfl
  · split <;> rfl

theorem step_rawLimit {t t' : PerfTrace} (hs : t.step a = some t') :
    t'.writer.rawLimit = t.writer.rawLimit := by
  cases step_moves hs with
  | tryAdmit hc spurious => rw [tryAdmit_writer]
  | send hc => rw [send_writer]
  | receive hw hq failure | drain hw hq failure => exact TraceWriter.observe_rawLimit ..
  | _ => rfl

theorem inv_run (h : Run Step (init rawLimit) actions t) : t.Inv :=
  h.preserves (inv_init rawLimit) fun hinv ⟨_, _, hs⟩ => hinv.step hs

/-- Calls that are in flight were so before. -/
def NoneAdmitted (t t' : PerfTrace) : Prop :=
  t'.admittedCount = t.admittedCount ∧
    ∀ (i : Nat) (c' : Call), t'.calls[i]? = some c' → c'.inFlight = true →
      ∃ c, t.calls[i]? = some c ∧ c.inFlight = true

theorem NoneAdmitted.same {t t' : PerfTrace} (h : t'.admittedCount = t.admittedCount)
    (hcalls : t'.calls = t.calls) : NoneAdmitted t t' :=
  ⟨h, fun _ c' hc hf => ⟨c', hcalls ▸ hc, hf⟩⟩

theorem NoneAdmitted.trans {t u v : PerfTrace} (h : NoneAdmitted t u) (h' : NoneAdmitted u v) :
    NoneAdmitted t v := by
  refine ⟨h'.1.trans h.1, fun i c' hc hf => ?_⟩
  obtain ⟨c, hc, hf⟩ := h'.2 i c' hc hf
  exact h.2 i c hc hf

theorem NoneAdmitted.set {t t' : PerfTrace} {c c' : Call} (h : t'.admittedCount = t.admittedCount)
    (hc : t.calls[i]? = some c) (hcalls : t'.calls = t.calls.set i c')
    (hf : c'.inFlight = true → c.inFlight = true) : NoneAdmitted t t' := by
  refine ⟨h, fun j x hx hxf => ?_⟩
  rw [hcalls, List.getElem?_set] at hx
  split at hx
  · next hij =>
    subst hij
    split at hx
    · cases hx
      exact ⟨c, hc, hf hxf⟩
    · cases hx
  · exact ⟨x, hx, hxf⟩

/-- A call of a closed trace is not admitted. -/
theorem Inv.tryAdmit_closed {t : PerfTrace} (h : t.Inv) (hclosed : t.finisher ≠ .running)
    (i : Nat) (e : Event) (current : UInt64) (spurious : Bool) :
    ∃ c', t.tryAdmit i e current spurious = t.setCall i c' ∧ c'.inFlight = false := by
  unfold PerfTrace.tryAdmit
  split
  · exact ⟨_, rfl, rfl⟩
  · next hopen =>
    split
    · exact ⟨_, rfl, rfl⟩
    · next hexchange =>
      have hcurrent : t.admission = current := not_not.1 (not_or.1 hexchange).2
      have hword := h.word
      rw [if_neg hclosed] at hword
      refine absurd (not_or.1 hopen).1 (not_not.2 ?_)
      rw [closed_iff, ← hcurrent, hword]
      exact Nat.le_add_right ..

/-- A closed trace stays closed, and admits no call. -/
theorem Inv.step_closed {t t' : PerfTrace} (h : t.Inv) (hclosed : t.finisher ≠ .running)
    (hs : t.step a = some t') : t'.finisher ≠ .running ∧ NoneAdmitted t t' := by
  cases step_moves hs with
  | record hopen sessionId sequence bytes micros =>
    refine ⟨hclosed, rfl, fun i c' hc hf => ?_⟩
    rw [List.getElem?_append] at hc
    split at hc
    · exact ⟨c', hc, hf⟩
    · rw [List.mem_singleton.1 (List.mem_of_getElem? hc)] at hf
      cases hf
  | tryAdmit hc spurious =>
    obtain ⟨c', htried, hf⟩ := h.tryAdmit_closed hclosed _ _ _ spurious
    rw [htried]
    exact ⟨hclosed, .set rfl hc rfl fun hf' => absurd (hf.symm.trans hf') Bool.false_ne_true⟩
  | load hc => exact ⟨hclosed, .set rfl hc rfl nofun⟩
  | send hc =>
    unfold PerfTrace.send
    split
    · exact ⟨hclosed, .set rfl hc rfl fun _ => rfl⟩
    · split
      · exact ⟨hclosed, .set rfl hc rfl fun _ => rfl⟩
      · exact ⟨hclosed, .set rfl hc rfl fun _ => rfl⟩
  | drop hc | release hc => exact ⟨hclosed, .set rfl hc rfl fun _ => rfl⟩
  | close | emptied | gaveUp | signalGone | signal | joined | leftAlone =>
    exact ⟨nofun, .same rfl rfl⟩
  | _ => exact ⟨hclosed, .same rfl rfl⟩

/-- A call that is not admitted changes nothing of a closed trace but where it is itself. -/
theorem Inv.entering_closed {t t' : PerfTrace} (h : t.Inv) (hclosed : t.finisher ≠ .running)
    (ha : a.entering = true) (hs : t.step a = some t') : t' = { t with calls := t'.calls } := by
  cases step_moves hs with
  | record hopen sessionId sequence bytes micros => rfl
  | load hc => rfl
  | tryAdmit hc spurious =>
    obtain ⟨c', htried, -⟩ := h.tryAdmit_closed hclosed _ _ _ spurious
    rw [htried]
    rfl
  | _ => cases ha

theorem run_closed {t t' : PerfTrace} (h : t.Inv) (hclosed : t.finisher ≠ .running)
    (hrun : Run Step t actions t') : NoneAdmitted t t' := by
  have hall := hrun.preserves
    (P := fun t' => t'.Inv ∧ t'.finisher ≠ .running ∧ NoneAdmitted t t')
    ⟨h, hclosed, .same rfl rfl⟩ fun ⟨hinv, hopen, hnone⟩ ⟨_, _, hs⟩ => by
      obtain ⟨hnext, hstep⟩ := hinv.step_closed hopen hs
      exact ⟨hinv.step hs, hnext, hnone.trans hstep⟩
  exact hall.2.2

/-- What the trace promises of a state. -/
structure Accounted (rawLimit : Nat) (t : PerfTrace) : Prop where
  footer : t.finisher.closeOk = true → ∀ f, t.footer = some f →
    f.samples + f.dropped = t.admittedCount
  success : ∀ ok, t.finisher = .returned ok true → ok = true ∧ t.footer.isSome = true
  late : t.finisher ≠ .running → ∀ a t', a.entering = true → t.step a = some t' →
    t' = { t with calls := t'.calls }
  closed : t.finisher ≠ .running → ∀ actions t', Run Step t actions t' → NoneAdmitted t t'
  sessions : t.writer.global.count =
      Table.total Histogram.count t.writer.sessions + t.writer.other.count ∧
    Table.size t.writer.sessions ≤ 64
  written : ∀ f, t.footer = some f →
    f.global.count = Table.total Histogram.count f.sessions + f.other.count ∧
      Table.size f.sessions ≤ 64
  raw : t.writer.raw.length ≤ min rawLimit (49 * 1024 * 1024)

/-- The performance trace, in every state of every run of its threads. -/
theorem trace_accounting (h : Run Step (init rawLimit) actions t) : Accounted rawLimit t := by
  have hinv := inv_run h
  have hsound := hinv.sound
  have hlimit : t.writer.rawLimit = min rawLimit (49 * 1024 * 1024) :=
    h.preserves (P := fun t => t.writer.rawLimit = min rawLimit (49 * 1024 * 1024)) rfl
      fun hl ⟨_, _, hs⟩ => (step_rawLimit hs).trans hl
  refine ⟨fun hok f hf => ?_, fun ok hreturned => ?_, fun hclosed a t' ha hs => ?_,
    fun hclosed actions t' hrun => run_closed hinv hclosed hrun, ⟨hsound.counts, hsound.keys⟩,
    fun f hf => ?_, hlimit ▸ hsound.raw⟩
  · obtain ⟨hsucceeded, d, rfl, hd⟩ := hinv.footer f hf
    have hpending := t.pending_le
    rw [hinv.quiet hok] at hpending
    have hqueue := hinv.drained hok (drained_of_succeeded hsucceeded)
    have hbalance := hinv.balance
    rw [hqueue, List.length_nil] at hbalance
    show t.writer.global.count + d = t.admittedCount
    rw [hd hok]
    omega
  · obtain ⟨hok, hsucceeded⟩ := hinv.success ok hreturned
    exact ⟨hok, hinv.written hsucceeded⟩
  · exact hinv.entering_closed hclosed ha hs
  · obtain ⟨-, d, rfl, -⟩ := hinv.footer f hf
    exact ⟨hsound.counts, hsound.keys⟩

theorem run_of_steps {t t' : PerfTrace} (h : t.steps actions = some t') :
    Run Step t actions t' := by
  induction actions generalizing t with
  | nil =>
    cases h
    exact .nil
  | cons a actions ih =>
    rw [steps, List.foldlM_cons] at h
    obtain ⟨u, hu, hrest⟩ := Option.bind_eq_some_iff.1 h
    exact (Run.single ⟨a, rfl, hu⟩).trans (ih hrest)

/-- One event is recorded, and the trace is finished. -/
def oneSample : List Action :=
  [.record (Uuid.fill 1) 7 12 23, .load 0, .tryAdmit 0 true, .tryAdmit 0 false, .send 0, .release 0,
    .tryShutdown, .receive none, .close, .poll false, .signal, .tryShutdown, .drain none,
    .finish true, .exit, .wait false]

theorem trace_accounting_one : ∃ t f, (init 1000).steps oneSample = some t ∧
    t.footer = some f ∧ f.samples + f.dropped = 1 := by
  have hsome : ((init 1000).steps oneSample).isSome = true := by decide +kernel
  obtain ⟨t, ht⟩ := Option.isSome_iff_exists.1 hsome
  have hend : (((init 1000).steps oneSample).map fun t => (t.finisher, t.admittedCount)) =
      some (.returned true true, 1) := by decide +kernel
  rw [ht, Option.map_some, Option.some.injEq, Prod.mk.injEq] at hend
  have haccounted := trace_accounting (run_of_steps ht)
  obtain ⟨f, hf⟩ := Option.isSome_iff_exists.1 (haccounted.success true hend.1).2
  have hsum := haccounted.footer (by rw [hend.1]; rfl) f hf
  exact ⟨t, f, ht, hf, hsum.trans hend.2⟩

end PerfTrace
end Perf
end RemoteCodex
