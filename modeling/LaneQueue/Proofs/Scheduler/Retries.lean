import LaneQueue.Proofs.Scheduler.Story
import LaneQueue.Proofs.Scheduler.Telling
/-!
# How often a record is tried

The number of failed attempts is kept with the stored record; each claim makes the next attempt of it,
and the settlement compares that with the bound. While the storage serves, no settlement is given up,
so the story of a record is told attempt by attempt: some that failed and were announced to be repeated,
each with the next number, and a last one, which may still be under way. Its number is within the bound,
and if its end has been told, the record is gone.
-/
namespace LaneQueue

namespace RetryConfig

theorem bound_lt (c : RetryConfig) : c.bound < UInt32.size := by
  have h := c.maxAttempts.toNat_lt
  simp only [bound, UInt32.size]
  omega

theorem bound_pos (c : RetryConfig) : 0 < c.bound := by
  simp only [bound]
  omega

end RetryConfig

namespace Record

/-- The greatest word stands for all numbers that no word can count. -/
theorem toNat_attempt_eq_min (r : Record) :
    r.attempt.toNat = min (r.retryCount.toNat + 1) (UInt32.size - 1) := by
  have hlt := r.retryCount.toNat_lt
  unfold attempt
  split
  · rename_i hmax
    rw [hmax]
    rfl
  · rename_i hne
    have hne' : r.retryCount.toNat ≠ 4294967295 := fun h => hne (UInt32.toNat_inj.1 h)
    simp only [UInt32.toNat_add, UInt32.reduceToNat, UInt32.size]
    omega

theorem toNat_attempt {r : Record} (h : r.retryCount.toNat + 1 < UInt32.size) :
    r.attempt.toNat = r.retryCount.toNat + 1 := by
  rw [toNat_attempt_eq_min]
  omega

/-- The number of the attempt that follows some failed ones. -/
theorem attempt_of_retryCount {r : Record} {failed : Nat} (h : r.retryCount.toNat = failed)
    (hlt : failed + 1 < UInt32.size) :
    r.attempt.toNat = failed + 1 ∧ r.attempt = .ofNat (failed + 1) := by
  have hnat : r.attempt.toNat = failed + 1 := by
    rw [toNat_attempt (by omega), h]
  exact ⟨hnat, by rw [← hnat, UInt32.ofNat_toNat]⟩

/-! ## What a run tells of a record -/

/-- What is noted of an attempt that fails and is to be repeated. -/
def failure (r : Record) (c : RetryConfig) (attempt : Nat) (reason : String) : List Note :=
  [.told (.started r.identity r.tag (.ofNat attempt)), .ended (.recoverable reason),
    .told (.retrying r.identity r.tag (.ofNat attempt) (.ofNat (c.delayMs r.identity attempt)) reason)]

/-- What is noted of the first attempts, if all of them fail and are to be repeated. -/
def failures (r : Record) (c : RetryConfig) (reasons : List String) : List Note :=
  (reasons.zipIdx 1).flatMap fun (reason, attempt) => r.failure c attempt reason

theorem failures_concat (r : Record) (c : RetryConfig) (reasons : List String) (reason : String) :
    r.failures c (reasons ++ [reason]) =
      r.failures c reasons ++ r.failure c (reasons.length + 1) reason := by
  simp [failures, List.zipIdx_append, Nat.add_comm]

/-- How an attempt that is not repeated is told to end. -/
inductive Ending (r : Record) (c : RetryConfig) (attempt : Nat) : Outcome → EventBody → Prop
  | success : Ending r c attempt .success (.completed r.identity r.tag (.ofNat attempt))
  | fatal (reason : String) :
      Ending r c attempt (.fatal reason) (.deadLettered r.identity r.tag (.ofNat attempt) reason)
  | swallowed (reason : String) : r.bubbles = false →
      Ending r c attempt (.recoverable reason) (.failureSwallowed r.identity r.tag reason)
  | exhausted (reason : String) : r.bubbles = true → attempt = c.bound →
      Ending r c attempt (.recoverable reason)
        (.deadLettered r.identity r.tag (.ofNat attempt) reason)

/-- What is noted of the last attempt so far. -/
inductive Last (r : Record) (c : RetryConfig) (attempt : Nat) : List Note → Prop
  | awaited : Last r c attempt []
  | begun : Last r c attempt [.told (.started r.identity r.tag (.ofNat attempt))]
  | ended (o : Outcome) :
      Last r c attempt [.told (.started r.identity r.tag (.ofNat attempt)), .ended o]
  | concluded {o : Outcome} {e : EventBody} : Ending r c attempt o e →
      Last r c attempt [.told (.started r.identity r.tag (.ofNat attempt)), .ended o, .told e]

/-- The notes about a record, attempt by attempt. -/
structure Retold (r : Record) (c : RetryConfig) (notes : List Note) (reasons : List String)
    (last : List Note) : Prop where
  notes_eq : notes = r.failures c reasons ++ last
  last : r.Last c (reasons.length + 1) last
  lt_bound : reasons.length < c.bound
  /-- Failures of a record that does not bubble are not repeated. -/
  bubbles : r.bubbles = false → reasons = []

end Record

/-! ## What that comes to -/

namespace Note

/-- The attempt that begins. -/
def started? : Note → Option UInt32
  | told (.started _ _ attempt) => some attempt
  | _ => none

/-- The attempt that is to be repeated. -/
def retrying? : Note → Option UInt32
  | told (.retrying _ _ attempt _ _) => some attempt
  | _ => none

end Note

/-- The numbers of the first attempts. -/
def attempts (n : Nat) : List UInt32 := (List.range' 1 n).map UInt32.ofNat

theorem attempts_succ (n : Nat) : attempts (n + 1) = attempts n ++ [.ofNat (n + 1)] := by
  simp [attempts, List.range'_1_concat, Nat.add_comm]

/-- Attempts without gap or repetition, as many as the bound allows, and no word after the last. -/
structure Bounded (c : RetryConfig) (r : Record) (notes : List Note) (begun failed : Nat) : Prop where
  started : notes.filterMap Note.started? = attempts begun
  /-- Each attempt but the last is to be repeated. -/
  retrying : notes.filterMap Note.retrying? = attempts failed
  next : begun = failed ∨ begun = failed + 1
  le_bound : begun ≤ c.bound
  single : r.bubbles = false → failed = 0
  terminal : notes.countP Note.isTerminal ≤ 1
  /-- The end is told last, of an attempt that is not repeated. -/
  conclusion : ∀ n ∈ notes, n.isTerminal = true → notes.getLast? = some n ∧ begun = failed + 1

namespace Record

variable {r : Record} {c : RetryConfig}

theorem started_failures (r : Record) (c : RetryConfig) (reasons : List String) :
    (r.failures c reasons).filterMap Note.started? = attempts reasons.length := by
  induction reasons using List.reverseRecOn with
  | nil => rfl
  | append_singleton reasons reason ih =>
    rw [failures_concat, List.filterMap_append, ih, List.length_append, List.length_singleton,
      attempts_succ]
    rfl

theorem retrying_failures (r : Record) (c : RetryConfig) (reasons : List String) :
    (r.failures c reasons).filterMap Note.retrying? = attempts reasons.length := by
  induction reasons using List.reverseRecOn with
  | nil => rfl
  | append_singleton reasons reason ih =>
    rw [failures_concat, List.filterMap_append, ih, List.length_append, List.length_singleton,
      attempts_succ]
    rfl

theorem not_isTerminal_of_failures {reasons : List String} {n : Note}
    (h : n ∈ r.failures c reasons) : n.isTerminal = false := by
  obtain ⟨⟨reason, i⟩, -, hn⟩ := List.mem_flatMap.1 h
  simp only [failure, List.mem_cons, List.not_mem_nil, or_false] at hn
  obtain rfl | rfl | rfl := hn <;> rfl

theorem Ending.isTerminal {attempt : Nat} {o : Outcome} {e : EventBody}
    (h : r.Ending c attempt o e) : e.isTerminal = true := by
  cases h <;> rfl

theorem Retold.single {notes last : List Note} {reasons : List String}
    (h : r.Retold c notes reasons last) (hb : r.bubbles = false) : reasons.length = 0 := by
  rw [h.bubbles hb]
  rfl

/-- The count of attempts if one more than those that failed has begun. -/
theorem Retold.bounded_of_begun {notes rest : List Note} {reasons : List String}
    (h : r.Retold c notes reasons
      (.told (.started r.identity r.tag (.ofNat (reasons.length + 1))) :: rest))
    (hstarted : rest.filterMap Note.started? = []) (hretrying : rest.filterMap Note.retrying? = [])
    (hterminal : rest.countP Note.isTerminal ≤ 1)
    (hover : ∀ n ∈ rest, n.isTerminal = true → rest.getLast? = some n) :
    Bounded c r notes (reasons.length + 1) reasons.length := by
  have hnone : (r.failures c reasons).countP Note.isTerminal = 0 :=
    List.countP_eq_zero.2 fun n hn => by simp [not_isTerminal_of_failures hn]
  refine ⟨?_, ?_, .inr rfl, h.lt_bound, h.single, ?_, fun n hn hterm => ⟨?_, rfl⟩⟩
  · rw [h.notes_eq, List.filterMap_append, started_failures, attempts_succ,
      List.filterMap_cons_some (f := Note.started?) rfl, hstarted]
  · rw [h.notes_eq, List.filterMap_append, retrying_failures,
      List.filterMap_cons_none (f := Note.retrying?) rfl, hretrying, List.append_nil]
  · rw [h.notes_eq, List.countP_append, hnone]
    simpa [Note.isTerminal, EventBody.isTerminal] using hterminal
  · rw [h.notes_eq] at hn ⊢
    rcases List.mem_append.1 hn with hn | hn
    · rw [not_isTerminal_of_failures hn] at hterm
      cases hterm
    · rcases List.mem_cons.1 hn with rfl | hn
      · cases hterm
      · simp [List.getLast?_append, List.getLast?_cons, hover n hn hterm]

theorem Retold.bounded {notes last : List Note} {reasons : List String}
    (h : r.Retold c notes reasons last) : ∃ begun, Bounded c r notes begun reasons.length := by
  have hlast := h.last
  cases hlast with
  | awaited =>
    refine ⟨reasons.length, ?_, ?_, .inl rfl, Nat.le_of_lt h.lt_bound, h.single, ?_, ?_⟩
    · rw [h.notes_eq, List.append_nil, started_failures]
    · rw [h.notes_eq, List.append_nil, retrying_failures]
    · have hnone : notes.countP Note.isTerminal = 0 := by
        rw [h.notes_eq, List.append_nil]
        exact List.countP_eq_zero.2 fun n hn => by simp [not_isTerminal_of_failures hn]
      omega
    · intro n hn hterm
      rw [h.notes_eq, List.append_nil] at hn
      rw [not_isTerminal_of_failures hn] at hterm
      cases hterm
  | begun => exact ⟨_, h.bounded_of_begun rfl rfl (by simp) (by simp)⟩
  | ended o =>
    exact ⟨_, h.bounded_of_begun rfl rfl (by simp [Note.isTerminal]) (by simp [Note.isTerminal])⟩
  | concluded he =>
    refine ⟨_, h.bounded_of_begun ?_ ?_ ?_ ?_⟩
    · cases he <;> rfl
    · cases he <;> rfl
    · simp [Note.isTerminal, he.isTerminal]
    · simp [Note.isTerminal]

end Record

/-! ## Episodes of a record that can be read -/

section Episodes

variable {W : Type} {w : Wiring W} {x r : Record} {ms ns : List Note} {f : Fate}

theorem Registry.decode_congr (g : Registry W) (h : x.toNewCommand = r.toNewCommand) :
    g.decode x = g.decode r := by
  have htag : x.tag = r.tag := congrArg NewCommand.tag h
  have hpayload : x.payload = r.payload := congrArg NewCommand.payload h
  have hidentity : x.identity = r.identity := congrArg NewCommand.identity h
  simp only [decode, htag, hpayload, hidentity]

/-- A record that is removed has ended by its outcome. -/
theorem Episode.of_removed (h : Episode w x ms f) {c : Command W} (hdec : w.registry.decode x = .ok c)
    (hf : f.retry = none) {attempt : Nat} (hn : x.attempt = .ofNat attempt)
    (hle : x.attempt.toNat ≤ w.config.retry.bound) (hnat : x.attempt.toNat = attempt) :
    ∃ o, ms = [.told (.started x.identity x.tag (.ofNat attempt)), .ended o] ∧
      x.Ending w.config.retry attempt o f.event := by
  cases h with
  | rejected he =>
    rw [hdec] at he
    cases he
  | executed o now _ =>
    refine ⟨o, by rw [hn], ?_⟩
    cases o with
    | success => rw [Fate.ofOutcome, hn]; exact .success
    | fatal reason => rw [Fate.ofOutcome, hn]; exact .fatal reason
    | recoverable reason =>
      simp only [Fate.ofOutcome] at hf ⊢
      split
      · rename_i hb
        exact .swallowed reason (by simpa using hb)
      · rename_i hb
        split
        · rename_i hex
          rw [hn]
          refine .exhausted reason (by simpa using hb) ?_
          simp only [RetryConfig.exhausted, decide_eq_true_eq] at hex
          omega
        · rename_i hex
          simp [hb, hex] at hf

/-- What is noted of an episode, as long as the record can be read, is noted of an attempt. -/
theorem Episode.last (h : Episode w x ms f) {c : Command W} (hdec : w.registry.decode x = .ok c)
    {attempt : Nat} (hn : x.attempt = .ofNat attempt) : x.Last w.config.retry attempt ms := by
  cases h with
  | rejected he =>
    rw [hdec] at he
    cases he
  | executed o now _ => rw [hn]; exact .ended o

theorem Underway.last {p : Point W} (h : Underway w x p ms) {c : Command W}
    (hdec : w.registry.decode x = .ok c) {attempt : Nat} (hn : x.attempt = .ofNat attempt) :
    x.Last w.config.retry attempt ms := by
  cases h with
  | decode | begin | announce => exact .awaited
  | run | asking => rw [hn]; exact .begun
  | settle _ hep _ | collapsed hep _ | release hep => exact hep.last hdec hn

theorem Episode.not_isTerminal (h : Episode w x ms f) {n : Note} (hn : n ∈ ms) :
    n.isTerminal = false := by
  cases h with
  | rejected => cases hn
  | executed =>
    simp only [List.mem_cons, List.not_mem_nil, or_false] at hn
    obtain rfl | rfl := hn <;> rfl

theorem Underway.not_isTerminal {p : Point W} (h : Underway w x p ms) {n : Note} (hn : n ∈ ms) :
    n.isTerminal = false := by
  cases h with
  | decode | begin | announce => cases hn
  | run | asking =>
    rw [List.mem_singleton.1 hn]
    rfl
  | settle _ hep _ | collapsed hep _ | release hep => exact hep.not_isTerminal hn

/-- The same is noted of an attempt of the same command. -/
theorem Record.Last.of_version {c : RetryConfig} {attempt : Nat} (hv : x.toNewCommand = r.toNewCommand)
    (h : x.Last c attempt ms) : r.Last c attempt ms := by
  have hidentity : x.identity = r.identity := congrArg NewCommand.identity hv
  have htag : x.tag = r.tag := congrArg NewCommand.tag hv
  have hbubbles : x.bubbles = r.bubbles := congrArg NewCommand.bubbles hv
  cases h with
  | awaited => exact .awaited
  | begun => rw [hidentity, htag]; exact .begun
  | ended o => rw [hidentity, htag]; exact .ended o
  | concluded he =>
    rw [hidentity, htag]
    refine .concluded ?_
    cases he with
    | success => rw [hidentity, htag]; exact .success
    | fatal reason => rw [hidentity, htag]; exact .fatal reason
    | swallowed reason hb => rw [hidentity, htag]; exact .swallowed reason (hbubbles.symm.trans hb)
    | exhausted reason hb he =>
      rw [hidentity, htag]
      exact .exhausted reason (hbubbles.symm.trans hb) he

/-- While no settlement is given up, the episodes of a fresh record are its failed attempts, and the
failed attempts in the store are their number. -/
theorem Chapters.failures (h : Chapters w r ns x) (hno : Note.givenUp ∉ ns) (h0 : r.retryCount = 0) :
    ∃ reasons, ns = r.failures w.config.retry reasons ∧ x.retryCount.toNat = reasons.length ∧
      reasons.length < w.config.retry.bound ∧ (r.bubbles = false → reasons = []) := by
  induction h with
  | stored =>
    refine ⟨[], rfl, ?_, w.config.retry.bound_pos, fun _ => rfl⟩
    rw [h0]
    rfl
  | repeated => simp at hno
  | @retried ns ms x f n u hch hep hf ih =>
    simp only [List.mem_append, not_or] at hno
    obtain ⟨reasons, hns, hcount, hlt, -⟩ := ih hno.1.1
    obtain ⟨reason, hb, hattempt, rfl, rfl, hev⟩ := hep.of_retry hf
    have hv := hch.isVersionOf.command
    have hbound := w.config.retry.bound_lt
    obtain ⟨hnat, hword⟩ := Record.attempt_of_retryCount hcount (by omega)
    have hidentity : x.identity = r.identity := congrArg NewCommand.identity hv
    have htag : x.tag = r.tag := congrArg NewCommand.tag hv
    have hbubbles : x.bubbles = r.bubbles := congrArg NewCommand.bubbles hv
    refine ⟨reasons ++ [reason], ?_, ?_, ?_, ?_⟩
    · rw [Record.failures_concat, hns, hev, hnat, hword, hidentity, htag, List.append_assoc]
      rfl
    · simpa [Record.postponed] using hnat
    · simpa [← hnat] using hattempt
    · intro hb'
      rw [hbubbles, hb'] at hb
      cases hb

/-- What is noted of a fresh record until now, if that is an attempt after some episodes. -/
theorem Chapters.retold (h : Chapters w r ns x) (hno : Note.givenUp ∉ ns) (h0 : r.retryCount = 0)
    {cmd : Command W} (hdec : w.registry.decode r = .ok cmd)
    (hlast : ∀ attempt : Nat, x.attempt = .ofNat attempt → x.attempt.toNat = attempt →
      x.attempt.toNat ≤ w.config.retry.bound → w.registry.decode x = .ok cmd →
        x.Last w.config.retry attempt ms) :
    (∃ reasons last, r.Retold w.config.retry (ns ++ ms) reasons last) ∧
      ∀ n ∈ ns, n.isTerminal = false := by
  obtain ⟨reasons, rfl, hcount, hlt, hb⟩ := h.failures hno h0
  have hv := h.isVersionOf.command
  have hbound := w.config.retry.bound_lt
  obtain ⟨hnat, hword⟩ := Record.attempt_of_retryCount hcount (by omega)
  have hx := hlast _ hword hnat (by omega) ((w.registry.decode_congr hv).trans hdec)
  exact ⟨⟨reasons, ms, rfl, hx.of_version hv, hlt, hb⟩,
    fun n hn => Record.not_isTerminal_of_failures hn⟩

end Episodes

namespace System

open LawfulStore (ledger)

variable {σ W : Type} [QueueStore σ] [LawfulStore σ] {w : Wiring W} {s s' : System σ W}
  {c : Chronicle} {r : Record}

/-- The story of a fresh record, attempt by attempt; if its end has been told, it is gone. -/
theorem Stands.retold (h : Stands w c s r) (hno : Note.givenUp ∉ c.about r.seq) (h0 : r.retryCount = 0)
    {cmd : Command W} (hdec : w.registry.decode r = .ok cmd) :
    (∃ reasons last, r.Retold w.config.retry (c.about r.seq) reasons last) ∧
      ((∃ n ∈ c.about r.seq, n.isTerminal = true) → (ledger s.shared.store).Vacant r.seq) := by
  -- before its end is told, nothing terminal has been noted
  have hquiet : ∀ {ns ms : List Note}, c.about r.seq = ns ++ ms →
      (∀ n ∈ ns, n.isTerminal = false) → (∀ n ∈ ms, n.isTerminal = false) →
        (∃ n ∈ c.about r.seq, n.isTerminal = true) → (ledger s.shared.store).Vacant r.seq := by
    rintro ns ms hnotes hns hms ⟨n, hn, hterm⟩
    rw [hnotes] at hn
    rcases List.mem_append.1 hn with hn | hn
    · rw [hns n hn] at hterm
      cases hterm
    · rw [hms n hn] at hterm
      cases hterm
  have hnone : ∀ {ns ms : List Note}, c.about r.seq = ns ++ ms → Note.givenUp ∉ ns :=
    fun hnotes hn => hno (hnotes ▸ List.mem_append_left _ hn)
  cases h with
  | @waiting ns x hch hns hk hn =>
    have hnotes : c.about r.seq = ns ++ [] := hns.trans (List.append_nil ns).symm
    obtain ⟨hretold, hfailed⟩ := hch.retold (hnone hnotes) h0 hdec fun _ _ _ _ _ => .awaited
    exact ⟨hnotes ▸ hretold, hquiet hnotes hfailed (by simp)⟩
  | inHand l hch hnotes hk hun =>
    obtain ⟨hretold, hfailed⟩ :=
      hch.retold (hnone hnotes) h0 hdec fun _ hword _ _ hd => hun.last hd hword
    exact ⟨hnotes ▸ hretold, hquiet hnotes hfailed fun n hn => hun.not_isTerminal hn⟩
  | settled l hch hnotes hep =>
    obtain ⟨hretold, hfailed⟩ :=
      hch.retold (hnone hnotes) h0 hdec fun _ hword _ _ hd => hep.last hd hword
    exact ⟨hnotes ▸ hretold, hquiet hnotes hfailed fun n hn => hep.not_isTerminal hn⟩
  | givenUp l hch hnotes =>
    rw [hnotes] at hno
    simp at hno
  | @gone ns ms x f hch hnotes hep hf hv =>
    rw [List.append_assoc] at hnotes
    refine ⟨hnotes ▸ (hch.retold (hnone hnotes) h0 hdec fun attempt hword hnat hle hd => ?_).1,
      fun _ => hv⟩
    obtain ⟨o, rfl, hend⟩ := hep.of_removed hd hf hword hle hnat
    exact .concluded hend

/-- A record that is stored for a submission has not failed. -/
theorem retryCount_of_accepted (h : s.Tidy) {a : Action} (hacc : s.accepted? a = some r) :
    r.retryCount = 0 := by
  obtain ⟨op, hop, hcr⟩ := Option.bind_eq_some_iff.1 hacc
  rcases LawfulStore.created?_cases h.sound op s.shared.now with ⟨hnone, -⟩ | ⟨d, hsome, -⟩
  · exact absurd (hnone.symm.trans hcr) nofun
  · cases hsome.symm.trans hcr
    rfl

/-- **Bounded retry.** Take any run of a scheduler, any step of it that stores a record for a submission,
and any run from there in which the storage serves every call and the record is neither replaced nor
cleared. If its payload can be read, what the run has told of it are attempts 1, 2, 3 and so on: all
but the last failed recoverably and were announced to be repeated, each once and by its number; the last
one is under way or has come to its end, which is told by its outcome; there are no more attempts than
the bound allows, and only one if its failures are not retried. Once its end has been told, nothing more
is, and its place is vacant. And nothing but what has been published about executions is noted as told. -/
theorem retries_bounded (w : Wiring W) {store : σ} (hs : (ledger store).Sound) (now : Instant)
    (world : W) {as bs : List Action} {a : Action} {s s₁ t : System σ W} {r : Record} {cmd : Command W}
    (hrun : (System.init w.config store now world).steps w as = some s)
    (hacc : s.accepted? a = some r) (hstep : s.step w a = some s₁)
    (hdec : w.registry.decode r = .ok cmd) (hrest : s₁.steps w bs = some t)
    (hserved : Unfailing w s₁ bs) (hd : ¬ DisplacedIn w s₁ bs r) :
    let c := (System.init w.config store now world).chronicle w (as ++ a :: bs) {}
    (∃ reasons last begun, r.Retold w.config.retry (c.about r.seq) reasons last ∧
        Bounded w.config.retry r (c.about r.seq) begun reasons.length) ∧
      ((∃ n ∈ c.about r.seq, n.isTerminal = true) → (ledger t.shared.store).Vacant r.seq) ∧
      t.shared.executions = c.told := by
  have h₀ := Tidy.init (W := W) w.config hs now world
  have hc₀ := Chronicle.sound_init w.config store now world
  have hstepped : (System.init w.config store now world).steps w (as ++ [a]) = some s₁ :=
    steps_snoc.2 ⟨s, hrun, hstep⟩
  have hall : (System.init w.config store now world).steps w (as ++ [a] ++ bs) = some t := by
    rw [steps_append, hstepped]
    exact hrest
  have htidy := h₀.steps hrun
  obtain ⟨hkeeps, -⟩ := seq_ne_of_accepted htidy hacc hstep
  obtain ⟨hfresh, hnobody⟩ := (hc₀.steps h₀ hrun).fresh htidy hacc hstep
  rw [← chronicle_snoc hrun hstep] at hfresh hnobody
  have htidy₁ := h₀.steps hstepped
  have hc₁ := hc₀.steps h₀ hstepped
  have hstands := Stands.steps htidy₁ hc₁ hfresh hkeeps hnobody hrest hd
  have hno := not_givenUp_of_unfailing hfresh hnobody hrest hserved
  have hsplit : as ++ a :: bs = as ++ [a] ++ bs := by simp
  simp only [hsplit]
  have htold := ((Chronicle.tells_init w.config store now world).steps hall).told
  rw [chronicle_append hstepped] at htold ⊢
  obtain ⟨⟨reasons, last, hretold⟩, hgone⟩ :=
    hstands.retold hno (retryCount_of_accepted htidy hacc) hdec
  obtain ⟨begun, hbounded⟩ := hretold.bounded
  exact ⟨⟨reasons, last, begun, hretold, hbounded⟩, hgone, htold⟩

/-- Three attempts, each claimed when it falls due. -/
def threeAttempts : List Action :=
  List.replicate 10 Trial.turn ++ [.tick 5] ++ List.replicate 10 Trial.turn ++ [.tick 10] ++
    List.replicate 10 Trial.turn

/-- All three fail, and the bound is reached. -/
theorem retries_bounded_threeAttempts :
    ∃ s s₁ t : System MemoryStore Unit, ∃ r,
      let w := Trial.wiring fun _ => .recoverable "x"
      let c := (Trial.init fun _ => .recoverable "x").chronicle w
        (Trial.upToStore ++ .advance 1 none :: threeAttempts) {}
      (Trial.init fun _ => .recoverable "x").steps w Trial.upToStore = some s ∧
        s.accepted? (.advance 1 none) = some r ∧ s.step w (.advance 1 none) = some s₁ ∧
        s₁.steps w threeAttempts = some t ∧
        (∃ reasons last begun, r.Retold w.config.retry (c.about r.seq) reasons last ∧
          Bounded w.config.retry r (c.about r.seq) begun reasons.length) ∧
        (c.about r.seq).getLast? = some (.told (.deadLettered "f" "Flaky" 3 "x")) ∧
        (ledger t.shared.store).Vacant r.seq := by
  let w := Trial.wiring fun _ => .recoverable "x"
  let s₀ := Trial.init fun _ => .recoverable "x"
  have hrun : (s₀.steps w Trial.upToStore).any fun s =>
      (s.accepted? (.advance 1 none)).any fun r => (s.step w (.advance 1 none)).any fun s₁ =>
        (s₁.steps w threeAttempts).any fun _ =>
          (s₁.operations w threeAttempts).all (fun op => !op.mayDisplace) ∧
            (w.registry.decode r).toOption.isSome ∧
            ((s₀.chronicle w (Trial.upToStore ++ .advance 1 none :: threeAttempts) {}).about
              r.seq).getLast? = some (.told (.deadLettered "f" "Flaky" 3 "x")) := by decide +kernel
  obtain ⟨s, hs, hrun⟩ := (Option.any_eq_true _ _).1 hrun
  obtain ⟨r, hr, hrun⟩ := (Option.any_eq_true _ _).1 hrun
  obtain ⟨s₁, hs₁, hrun⟩ := (Option.any_eq_true _ _).1 hrun
  obtain ⟨t, ht, hend⟩ := (Option.any_eq_true _ _).1 hrun
  obtain ⟨hops, hdec, hlast⟩ := of_decide_eq_true hend
  have hempty : (ledger MemoryStore.empty).Sound := Ledger.Sound.empty
  have hfaultless : ∀ b ∈ threeAttempts, b.fault? = none := by decide
  have hd : ¬ DisplacedIn w s₁ threeAttempts r :=
    not_displacedIn fun op hop => by simpa using List.all_eq_true.1 hops op hop
  obtain ⟨cmd, hcmd⟩ : ∃ cmd, w.registry.decode r = .ok cmd := by
    cases hx : w.registry.decode r with
    | ok cmd => exact ⟨cmd, rfl⟩
    | error e => rw [hx] at hdec; cases hdec
  obtain ⟨hretold, hgone, -⟩ :=
    retries_bounded w hempty 0 () hs hr hs₁ hcmd ht (unfailing_of_memory hfaultless) hd
  exact ⟨s, s₁, t, r, hs, hr, hs₁, ht, hretold, hlast,
    hgone ⟨_, List.mem_of_getLast? hlast, rfl⟩⟩

end System

end LaneQueue
