import StaticReflection.Locator.Locate

/-!
What a memo answers over a whole history of calls. Callers, and the locators behind memos, are taken
as interaction trees: they change a session as they like, apart from the remembered answers, and
call memos, where each call brings along what the locator behind it is going to do. That locator may
answer differently each time, may fail, and may itself call memos, but not for an answer that is
being looked for. The state of the memos is then a function of the calls that have ended, and so is
every answer.
-/

namespace StaticReflection

/-- What memos keep answers for: an identifier, or a kind whose declarations are listed. The place
says which memo it is, and who asks. -/
inductive MemoKey where
  | located (place : MemoPlace) (kind : Kind) (name : String)
  | listed (place : MemoPlace) (kind : Kind)
  deriving DecidableEq

/-- The answers for a key. -/
@[reducible] def MemoKey.Answer : MemoKey → Type
  | .located .. => Option Found
  | .listed .. => List Found

namespace Session

/-- The remembered answer for a key. -/
def remembered (s : Session) : (k : MemoKey) → Option k.Answer
  | .located place kind name => s.located.get? (place, kind, name)
  | .listed place kind => s.listed.get? (place, kind)

/-- Remembers an answer unless there is one. -/
def store (s : Session) : (k : MemoKey) → k.Answer → Session
  | .located place kind name, answer =>
    { s with located := s.located.store (place, kind, name) answer }
  | .listed place kind, answer => { s with listed := s.listed.store (place, kind) answer }

theorem remembered_start (files : FileTree) (k : MemoKey) :
    (start files).remembered k = none := by
  cases k <;> rfl

theorem remembered_store_self {s : Session} {k : MemoKey} (h : s.remembered k = none)
    (answer : k.Answer) : (s.store k answer).remembered k = some answer := by
  cases k with
  | located place kind name => exact AnswerTable.get?_store_self h answer
  | listed place kind => exact AnswerTable.get?_store_self h answer

theorem store_of_remembered {s : Session} {k : MemoKey} {old : k.Answer}
    (h : s.remembered k = some old) (answer : k.Answer) : s.store k answer = s := by
  cases k with
  | located place kind name =>
    unfold store
    simp only
    rw [AnswerTable.store_of_get?_eq_some h]
  | listed place kind =>
    unfold store
    simp only
    rw [AnswerTable.store_of_get?_eq_some h]

theorem remembered_store_of_ne (s : Session) {k other : MemoKey} (h : other ≠ k)
    (answer : k.Answer) : (s.store k answer).remembered other = s.remembered other := by
  cases k with
  | located place kind name =>
    cases other with
    | located place' kind' name' =>
      apply AnswerTable.get?_store_of_ne
      intro heq
      cases heq
      exact h rfl
    | listed place' kind' => rfl
  | listed place kind =>
    cases other with
    | located place' kind' name' => rfl
    | listed place' kind' =>
      apply AnswerTable.get?_store_of_ne
      intro heq
      cases heq
      exact h rfl

end Session

namespace Lookup

/-- A call of a memo, with what the locator behind it does when it is asked. -/
def remember : (k : MemoKey) → Lookup k.Answer → Lookup k.Answer
  | .located place kind name, ask => rememberLocated place kind name ask
  | .listed place kind, ask => rememberListed place kind ask

theorem remember_of_remembered {s : Session} {k : MemoKey} {answer : k.Answer}
    (h : s.remembered k = some answer) (ask : Lookup k.Answer) :
    (remember k ask).start s = (.ok answer, s) := by
  cases k with
  | located place kind name =>
    rw [remember, rememberLocated, start_bind, start_get]
    change s.located.get? (place, kind, name) = some answer at h
    simp only [h, start_pure]
  | listed place kind =>
    rw [remember, rememberListed, start_bind, start_get]
    change s.listed.get? (place, kind) = some answer at h
    simp only [h, start_pure]

theorem remember_of_not_remembered {s : Session} {k : MemoKey} (h : s.remembered k = none)
    (ask : Lookup k.Answer) :
    (remember k ask).start s = match ask.start s with
      | (.ok answer, t) => (.ok (((t.store k answer).remembered k).getD answer), t.store k answer)
      | (.error e, t) => (.error e, t) := by
  cases k with
  | located place kind name =>
    rw [remember, rememberLocated, start_bind, start_get]
    change s.located.get? (place, kind, name) = none at h
    simp only [h, start_bind]
    rcases ask.start s with ⟨e | answer, t⟩ <;> rfl
  | listed place kind =>
    rw [remember, rememberListed, start_bind, start_get]
    change s.listed.get? (place, kind) = none at h
    simp only [h, start_bind]
    rcases ask.start s with ⟨e | answer, t⟩ <;> rfl

/-- What the locator behind a memo finds is given and remembered. -/
theorem remember_of_found {s t : Session} {k : MemoKey} {ask : Lookup k.Answer} {answer : k.Answer}
    (h : s.remembered k = none) (hask : ask.start s = (.ok answer, t))
    (ht : t.remembered k = none) :
    (remember k ask).start s = (.ok answer, t.store k answer) := by
  rw [remember_of_not_remembered h, hask]
  simp only
  rw [Session.remembered_store_self ht]
  rfl

/-- An answer that was remembered while the locator was asked is given in its place. -/
theorem remember_of_overtaken {s t : Session} {k : MemoKey} {ask : Lookup k.Answer}
    {answer other : k.Answer} (h : s.remembered k = none) (hask : ask.start s = (.ok answer, t))
    (ht : t.remembered k = some other) :
    (remember k ask).start s = (.ok other, t) := by
  rw [remember_of_not_remembered h, hask]
  simp only
  rw [Session.store_of_remembered ht, ht]
  rfl

theorem remember_of_failed {s t : Session} {k : MemoKey} {ask : Lookup k.Answer} {e : Error}
    (h : s.remembered k = none) (hask : ask.start s = (.error e, t)) :
    (remember k ask).start s = (.error e, t) := by
  rw [remember_of_not_remembered h, hask]

/-- Behind a call of a memo is what the locator that it asks leaves behind, apart from one new
answer. -/
theorem after_remember {I : Session → Prop} {s : Session} {k : MemoKey} {ask : Lookup k.Answer}
    (hs : I s) (hask : I (ask.start s).2) (hstore : ∀ t answer, I t → I (t.store k answer)) :
    I ((remember k ask).start s).2 := by
  cases hk : s.remembered k with
  | some answer =>
    rw [remember_of_remembered hk]
    exact hs
  | none =>
    rw [remember_of_not_remembered hk]
    rcases h : ask.start s with ⟨e | answer, t⟩
    · rw [h] at hask
      exact hask
    · rw [h] at hask
      exact hstore t answer hask

/-- The outcome of a lookup as a value, also when it fails. -/
def attempt {α : Type} (l : Lookup α) : Lookup (Except Error α) := ExceptT.lift l.run

@[simp] theorem start_attempt {α : Type} (l : Lookup α) (s : Session) :
    (attempt l).start s = (.ok (l.start s).1, (l.start s).2) := rfl

/-- A locator that is counted when it is asked, and fails. -/
def probe (α : Type) : Lookup α := do
  countCall 0
  throw .evaledClosureCannotBeLocated

/-- Whether a call of a memo reaches the locator behind it. -/
def delegates (k : MemoKey) (s : Session) : Bool :=
  s.calls.length < ((remember k (probe k.Answer)).start s).2.calls.length

theorem delegates_eq (k : MemoKey) (s : Session) : delegates k s = (s.remembered k).isNone := by
  unfold delegates
  cases h : s.remembered k with
  | some answer =>
    rw [remember_of_remembered h]
    simp
  | none =>
    rw [remember_of_not_remembered h]
    simp [probe, start_bind]

end Lookup

theorem Locator.locate_memo (isFunction : FunctionQuestion) (q : Inquiry) (slot : Nat)
    (inner : Locator) (id : Identifier) :
    (Locator.memo slot inner).locate isFunction q id =
      Lookup.remember (.located ⟨slot, q.mode, q.asker⟩ id.kind id.key)
        (inner.locate isFunction q id) := by
  rw [Locator.locate]
  rfl

theorem Locator.list_memo (isFunction : FunctionQuestion) (q : Inquiry) (slot : Nat)
    (inner : Locator) (kind : Kind) :
    (Locator.memo slot inner).list isFunction q kind =
      Lookup.remember (.listed ⟨slot, q.mode, q.asker⟩ kind) (inner.list isFunction q kind) := by
  rw [Locator.list]
  rfl

/-- What a caller of memos does, or a locator behind a memo that is asked: it ends, it reads and
changes what is no remembered answer, or it calls a memo and goes on with the outcome. -/
inductive Caller : Type → Type 1 where
  | done {α : Type} (outcome : Except Error α) : Caller α
  | act {α : Type} (change : Session → Session)
    (keeps : ∀ s k, (change s).remembered k = s.remembered k) (next : Session → Caller α) : Caller α
  | call {α : Type} (k : MemoKey) (behind : Caller k.Answer)
    (next : Except Error k.Answer → Caller α) : Caller α

/-- A call of a memo that has ended: the sessions around it, what the locator behind the memo did if
it was asked, and the outcome. -/
structure MemoCall where
  key : MemoKey
  before : Session
  asked : Option (Except Error key.Answer × Session)
  outcome : Except Error key.Answer
  after : Session

/-- The call of a memo on a session. -/
def MemoCall.ofCall (k : MemoKey) (behind : Lookup k.Answer) (s : Session) : MemoCall where
  key := k
  before := s
  asked := if Lookup.delegates k s then some (behind.start s) else none
  outcome := ((Lookup.remember k behind).start s).1
  after := ((Lookup.remember k behind).start s).2

namespace Caller

/-- The caller as a lookup. -/
def toLookup {α : Type} : Caller α → Lookup α
  | .done outcome => Lookup.ofExcept outcome
  | .act change _ next => do
    let s ← get
    set (change s)
    (next s).toLookup
  | .call k behind next => do
    let outcome ← (Lookup.remember k behind.toLookup).attempt
    (next outcome).toLookup

/-- The calls of memos, those inside other calls as well, in the order in which they end. -/
def calls {α : Type} : Caller α → Session → List MemoCall
  | .done _, _ => []
  | .act change _ next, s => (next s).calls (change s)
  | .call k behind next, s =>
    let c := MemoCall.ofCall k behind.toLookup s
    (if Lookup.delegates k s then behind.calls s else []) ++
      c :: (next ((Lookup.remember k behind.toLookup).start s).1).calls c.after

/-- Nobody calls a memo for one of these keys, nor for one that is being answered. -/
def Avoids {α : Type} (pending : List MemoKey) : Caller α → Prop
  | .done _ => True
  | .act _ _ next => ∀ s, (next s).Avoids pending
  | .call k behind next =>
    k ∉ pending ∧ behind.Avoids (k :: pending) ∧ ∀ outcome, (next outcome).Avoids pending

end Caller

namespace MemoCall

/-- The outcome of a call with a key. -/
def outcomeFor? (k : MemoKey) (c : MemoCall) : Option (Except Error k.Answer) :=
  if h : c.key = k then some (h ▸ c.outcome) else none

/-- The answer of the first call with a key that did not fail. Calls with other keys do not
count. -/
def firstAnswer (k : MemoKey) (calls : List MemoCall) : Option k.Answer :=
  (calls.filterMap (·.outcomeFor? k)).findSome? Except.toOption

theorem firstAnswer_append (k : MemoKey) (left right : List MemoCall) :
    firstAnswer k (left ++ right) = (firstAnswer k left).or (firstAnswer k right) := by
  unfold firstAnswer
  rw [List.filterMap_append, List.findSome?_append]

theorem firstAnswer_self (c : MemoCall) : firstAnswer c.key [c] = c.outcome.toOption := by
  have hfor : c.outcomeFor? c.key = some c.outcome := by
    unfold outcomeFor?
    rw [dif_pos rfl]
  unfold firstAnswer
  rw [List.filterMap_cons_some hfor]
  cases h : c.outcome.toOption <;> simp [h]

theorem firstAnswer_of_forall_ne {k : MemoKey} {calls : List MemoCall}
    (h : ∀ c ∈ calls, c.key ≠ k) : firstAnswer k calls = none := by
  have hnone : calls.filterMap (·.outcomeFor? k) = [] := by
    rw [List.filterMap_eq_nil_iff]
    intro c hc
    unfold outcomeFor?
    rw [dif_neg (h c hc)]
  unfold firstAnswer
  rw [hnone]
  rfl

theorem firstAnswer_ofCall (k : MemoKey) (behind : Lookup k.Answer) (s : Session) :
    firstAnswer k [ofCall k behind s] = ((Lookup.remember k behind).start s).1.toOption :=
  firstAnswer_self (ofCall k behind s)

theorem firstAnswer_ofCall_of_ne {k other : MemoKey} (h : k ≠ other) (behind : Lookup k.Answer)
    (s : Session) : firstAnswer other [ofCall k behind s] = none := by
  apply firstAnswer_of_forall_ne
  intro c hc
  rw [List.mem_singleton.mp hc]
  exact h

/-- What a call has to do after these calls have ended. -/
structure Follows (c : MemoCall) (earlier : List MemoCall) : Prop where
  /-- It asks the locator behind the memo if no earlier call with its key got an answer. -/
  asks_iff : c.asked.isSome = true ↔ firstAnswer c.key earlier = none
  /-- Otherwise it gives the first answer again, and nothing changes. -/
  repeats : ∀ answer, firstAnswer c.key earlier = some answer →
    c.outcome = .ok answer ∧ c.after = c.before
  /-- What the locator behind the memo gives is passed on, also a failure. -/
  passes : ∀ outcome t, c.asked = some (outcome, t) → c.outcome = outcome
  /-- A failing call leaves all remembered answers as the locator behind the memo left them. -/
  fails : ∀ e, c.outcome = .error e →
    ∃ t, c.asked = some (.error e, t) ∧ c.after = t ∧
      ∀ k, c.after.remembered k = firstAnswer k earlier
  /-- Remembered answers stay. -/
  keeps : ∀ k answer, c.before.remembered k = some answer → c.after.remembered k = some answer
  /-- What is remembered are the first answers of all calls so far. -/
  remembers : ∀ k, c.after.remembered k = firstAnswer k (earlier ++ [c])

/-- Each of the calls does what it has to after the earlier ones. -/
def AllFollow : List MemoCall → List MemoCall → Prop
  | _, [] => True
  | earlier, c :: rest => c.Follows earlier ∧ AllFollow (earlier ++ [c]) rest

theorem allFollow_append {earlier left right : List MemoCall} (hleft : AllFollow earlier left)
    (hright : AllFollow (earlier ++ left) right) : AllFollow earlier (left ++ right) := by
  induction left generalizing earlier with
  | nil => simpa using hright
  | cons c rest ih =>
    refine ⟨hleft.1, ih hleft.2 ?_⟩
    simpa using hright

theorem AllFollow.follows {earlier before after : List MemoCall} {c : MemoCall}
    (h : AllFollow earlier (before ++ c :: after)) : c.Follows (earlier ++ before) := by
  induction before generalizing earlier with
  | nil => simpa using h.1
  | cons d rest ih => simpa using ih h.2

/-- The remembered answers are the first answers of the calls that have ended. -/
def Reflects (history : List MemoCall) (s : Session) : Prop :=
  ∀ k, s.remembered k = firstAnswer k history

variable {history inner : List MemoCall} {s : Session} {k : MemoKey} {behind : Lookup k.Answer}

theorem ofCall_follows_of_hit {answer : k.Answer} (hs : Reflects history s)
    (hk : s.remembered k = some answer) : (ofCall k behind s).Follows history := by
  have hstart := Lookup.remember_of_remembered hk behind
  have hdelegates : Lookup.delegates k s = false := by
    rw [Lookup.delegates_eq, hk]
    rfl
  have hasked : (ofCall k behind s).asked = none := by
    simp [ofCall, hdelegates]
  have houtcome : (ofCall k behind s).outcome = .ok answer := by
    simp [ofCall, hstart]
  have hafter : (ofCall k behind s).after = s := by
    simp [ofCall, hstart]
  have hfirst : firstAnswer k history = some answer := by
    rw [← hs k, hk]
  constructor
  · rw [hasked]
    constructor
    · intro h
      cases h
    · intro h
      exact absurd (hfirst.symm.trans h) (by simp)
  · intro other h
    have hsame : answer = other := Option.some.inj (hfirst.symm.trans h)
    subst hsame
    exact ⟨houtcome, hafter⟩
  · intro outcome t h
    rw [hasked] at h
    cases h
  · intro e h
    rw [houtcome] at h
    cases h
  · intro k' other h
    rw [hafter]
    exact h
  · intro k'
    rw [hafter, hs k', firstAnswer_append]
    by_cases hkey : k = k'
    · subst hkey
      rw [hfirst]
      rfl
    · rw [firstAnswer_ofCall_of_ne hkey]
      exact (Option.or_none).symm

theorem ofCall_follows_of_miss (hs : Reflects history s) (hk : s.remembered k = none)
    (hinner : ∀ c ∈ inner, c.key ≠ k) (hbehind : Reflects (history ++ inner) (behind.start s).2) :
    (ofCall k behind s).Follows (history ++ inner) := by
  have hdelegates : Lookup.delegates k s = true := by
    rw [Lookup.delegates_eq, hk]
    rfl
  have hasked : (ofCall k behind s).asked = some (behind.start s) := by
    simp [ofCall, hdelegates]
  have hfirst : firstAnswer k (history ++ inner) = none := by
    rw [firstAnswer_append, ← hs k, hk, firstAnswer_of_forall_ne hinner]
    rfl
  have hearlier : ∀ k' answer, s.remembered k' = some answer →
      firstAnswer k' (history ++ inner) = some answer := by
    intro k' answer h
    rw [firstAnswer_append, ← hs k', h]
    rfl
  have hasks : (ofCall k behind s).asked.isSome = true ↔
      firstAnswer (ofCall k behind s).key (history ++ inner) = none := by
    rw [hasked]
    exact ⟨fun _ => hfirst, fun _ => rfl⟩
  have hrepeats : ∀ answer, firstAnswer (ofCall k behind s).key (history ++ inner) = some answer →
      (ofCall k behind s).outcome = .ok answer ∧
        (ofCall k behind s).after = (ofCall k behind s).before := by
    intro answer h
    exact absurd (hfirst.symm.trans h) (by simp)
  rcases hanswer : behind.start s with ⟨e | answer, t⟩
  · have hstart := Lookup.remember_of_failed hk hanswer
    rw [hanswer] at hasked hbehind
    have houtcome : (ofCall k behind s).outcome = .error e := by
      simp [ofCall, hstart]
    have hafter : (ofCall k behind s).after = t := by
      simp [ofCall, hstart]
    refine ⟨hasks, hrepeats, ?_, ?_, ?_, ?_⟩
    · intro outcome u h
      rw [hasked] at h
      cases h
      exact houtcome
    · intro e' h
      rw [houtcome] at h
      cases h
      refine ⟨t, hasked, hafter, fun k' => ?_⟩
      rw [hafter]
      exact hbehind k'
    · intro k' answer h
      rw [hafter, hbehind k']
      exact hearlier k' answer h
    · intro k'
      rw [hafter, hbehind k', firstAnswer_append k' (history ++ inner)]
      by_cases hkey : k = k'
      · subst hkey
        rw [hfirst, firstAnswer_ofCall, hstart]
        rfl
      · rw [firstAnswer_ofCall_of_ne hkey]
        exact (Option.or_none).symm
  · rw [hanswer] at hasked hbehind
    have hmissing : t.remembered k = none := (hbehind k).trans hfirst
    have hstart := Lookup.remember_of_found hk hanswer hmissing
    have houtcome : (ofCall k behind s).outcome = .ok answer := by
      simp [ofCall, hstart]
    have hafter : (ofCall k behind s).after = t.store k answer := by
      simp [ofCall, hstart]
    have hremembers : Reflects (history ++ inner ++ [ofCall k behind s]) (t.store k answer) := by
      intro k'
      rw [firstAnswer_append k' (history ++ inner)]
      by_cases hkey : k = k'
      · subst hkey
        rw [hfirst, Session.remembered_store_self hmissing, firstAnswer_ofCall, hstart]
        rfl
      · rw [firstAnswer_ofCall_of_ne hkey, Session.remembered_store_of_ne t (Ne.symm hkey),
          hbehind k']
        exact (Option.or_none).symm
    refine ⟨hasks, hrepeats, ?_, ?_, ?_, ?_⟩
    · intro outcome u h
      rw [hasked] at h
      cases h
      exact houtcome
    · intro e h
      rw [houtcome] at h
      cases h
    · intro k' other h
      rw [hafter, hremembers k', firstAnswer_append, hearlier k' other h]
      rfl
    · intro k'
      rw [hafter]
      exact hremembers k'

end MemoCall

namespace Caller

open MemoCall

/-- What holds of the calls that a caller makes after earlier ones, and of the session behind it. -/
structure Sound (history : List MemoCall) (pending : List MemoKey) (calls : List MemoCall)
    (after : Session) : Prop where
  reflects : Reflects (history ++ calls) after
  avoids : ∀ c ∈ calls, c.key ∉ pending
  follow : AllFollow history calls

/-- By induction on the caller. A call that reaches the locator behind a memo ends after the calls
that this locator makes, and none of these has its key. -/
theorem sound {α : Type} (c : Caller α) {history : List MemoCall} {pending : List MemoKey}
    {s : Session} (havoids : c.Avoids pending) (hs : Reflects history s) :
    Sound history pending (c.calls s) (c.toLookup.start s).2 := by
  induction c generalizing history pending s with
  | done outcome =>
    refine ⟨?_, ?_, trivial⟩
    · simpa [toLookup, calls] using hs
    · intro c hc
      cases hc
  | act change keeps next ih =>
    have hchange : Reflects history (change s) := by
      intro k
      rw [keeps s k]
      exact hs k
    have hstart : ((act change keeps next).toLookup.start s).2 =
        ((next s).toLookup.start (change s)).2 := rfl
    rw [hstart]
    exact ih s (havoids s) hchange
  | call k behind next ihbehind ihnext =>
    obtain ⟨hpending, hbehind, hnext⟩ := havoids
    have hstart : ((call k behind next).toLookup.start s).2 =
        ((next ((Lookup.remember k behind.toLookup).start s).1).toLookup.start
          ((Lookup.remember k behind.toLookup).start s).2).2 := by
      rw [toLookup, Lookup.start_bind, Lookup.start_attempt]
    rw [hstart, calls]
    generalize hinner : (if Lookup.delegates k s then behind.calls s else []) = inner
    have hcall : (MemoCall.ofCall k behind.toLookup s).Follows (history ++ inner) ∧
        AllFollow history inner ∧ ∀ c ∈ inner, c.key ∉ pending := by
      subst hinner
      rw [Lookup.delegates_eq]
      cases hk : s.remembered k with
      | some answer =>
        refine ⟨?_, trivial, ?_⟩
        · have hfollows : (MemoCall.ofCall k behind.toLookup s).Follows history :=
            ofCall_follows_of_hit hs hk
          simpa using hfollows
        · intro c hc
          cases hc
      | none =>
        have hsound := ihbehind hbehind hs
        refine ⟨ofCall_follows_of_miss hs hk ?_ hsound.reflects, hsound.follow, ?_⟩
        · intro c hc hkey
          exact hsound.avoids c hc (hkey ▸ List.mem_cons_self)
        · intro c hc hmem
          exact hsound.avoids c hc (List.mem_cons_of_mem _ hmem)
    obtain ⟨hfollows, hfollow, havoid⟩ := hcall
    have hrest := ihnext ((Lookup.remember k behind.toLookup).start s).1 (hnext _)
      hfollows.remembers
    refine ⟨?_, ?_, ?_⟩
    · have hreflects := hrest.reflects
      rw [List.append_assoc, List.append_assoc] at hreflects
      exact hreflects
    · intro c hc
      rcases List.mem_append.mp hc with hc | hc
      · exact havoid c hc
      rcases List.mem_cons.mp hc with rfl | hc
      · exact hpending
      · exact hrest.avoids c hc
    · exact allFollow_append hfollow ⟨hfollows, hrest.follow⟩

end Caller

/-- Asking a memo for an identifier or for a list is a call of the memo. In every history of such
calls each one asks the locator behind the memo exactly if no earlier call with its key got an
answer, "nothing found" among them; otherwise it gives the first such answer again. Failures are
passed on and are not remembered, remembered answers stay, and an answer depends on no call with
another key: not on those of other askers, nor on those for single declarations where a list is
asked for. -/
theorem memo_calls_follow {α : Type} (c : Caller α) (havoids : c.Avoids []) {s : Session}
    (hfresh : ∀ k, s.remembered k = none) :
    (∀ isFunction q slot inner,
      (∀ id, (Locator.memo slot inner).locate isFunction q id =
        Lookup.remember (.located ⟨slot, q.mode, q.asker⟩ id.kind id.key)
          (inner.locate isFunction q id)) ∧
      ∀ kind, (Locator.memo slot inner).list isFunction q kind =
        Lookup.remember (.listed ⟨slot, q.mode, q.asker⟩ kind) (inner.list isFunction q kind)) ∧
    (∀ earlier later call, c.calls s = earlier ++ call :: later → call.Follows earlier) ∧
    ∀ k, (c.toLookup.start s).2.remembered k = MemoCall.firstAnswer k (c.calls s) := by
  have hsound : Caller.Sound [] [] (c.calls s) (c.toLookup.start s).2 := c.sound havoids hfresh
  refine ⟨?_, ?_, hsound.reflects⟩
  · intro isFunction q slot inner
    exact ⟨Locator.locate_memo isFunction q slot inner, Locator.list_memo isFunction q slot inner⟩
  · intro earlier later call hcalls
    have hfollow := hsound.follow
    rw [hcalls] at hfollow
    exact hfollow.follows

/-- A class that is asked for three times. The first time this fails, and the second time nothing is
found after all classes have been listed. -/
def failingOnce : Caller Unit :=
  let place : MemoPlace := ⟨0, .compiled, 1⟩
  let key : MemoKey := .located place .classLike "foo"
  .call key (.done (.error .evaledClosureCannotBeLocated)) fun _ =>
    .call key (.call (.listed place .classLike) (.done (.ok [])) fun _ => .done (.ok none)) fun _ =>
      .call key (.done (.error .evaledClosureCannotBeLocated)) fun _ => .done (.ok ())

theorem memo_calls_follow_failingOnce :
    (failingOnce.calls (.start .empty)).map (·.asked.isSome) = [true, true, true, false] ∧
      ∀ earlier later call, failingOnce.calls (.start .empty) = earlier ++ call :: later →
        call.Follows earlier := by
  have havoids : failingOnce.Avoids [] := by
    simp [failingOnce, Caller.Avoids]
  refine ⟨by decide +kernel, ?_⟩
  exact (memo_calls_follow failingOnce havoids (Session.remembered_start .empty)).2.1

end StaticReflection
