import ResourceCli.Exchange.Send

/-!
# What is sent

A run asks its surroundings for things and goes on with the answers.  What it sends is a matter of
all answers that it may get.  `Run.SendsOnly` says that whatever the surroundings answer, nothing is
sent but requests of a kind, and `exchange_sendsOnly` that an exchange sends nothing but the request
it was asked for, to the URL that is read from the address.
-/

namespace ResourceCli

/-- Whatever the surroundings answer, a run sends only requests of a kind. -/
def Run.SendsOnly {α : Type} (P : Outgoing → Prop) : Run α → Prop
  | .done _ => True
  | .note _ next => next.SendsOnly P
  | .print _ _ next => next.SendsOnly P
  | .readText _ next => ∀ x, (next x).SendsOnly P
  | .readBytes _ next => ∀ x, (next x).SendsOnly P
  | .write _ _ next => ∀ x, (next x).SendsOnly P
  | .append _ _ next => ∀ x, (next x).SendsOnly P
  | .makeDirectories _ next => ∀ x, (next x).SendsOnly P
  | .has _ next => ∀ x, (next x).SendsOnly P
  | .time next => ∀ x, (next x).SendsOnly P
  | .send request next => P request ∧ ∀ x, (next x).SendsOnly P

variable {α β : Type} {P : Outgoing → Prop}

/-- A run after another one sends only what both do. -/
theorem Run.SendsOnly.bind {r : Run α} {f : α → Run β} (hr : r.SendsOnly P)
    (hf : ∀ a, (f a).SendsOnly P) : (r.bind f).SendsOnly P := by
  induction r with
  | done a => exact hf a
  | note event next ih => exact ih hr
  | print stream text next ih => exact ih hr
  | readText path next ih => exact fun x => ih x (hr x)
  | readBytes path next ih => exact fun x => ih x (hr x)
  | write path text next ih => exact fun x => ih x (hr x)
  | append path text next ih => exact fun x => ih x (hr x)
  | makeDirectories path next ih => exact fun x => ih x (hr x)
  | has path next ih => exact fun x => ih x (hr x)
  | time next ih => exact fun x => ih x (hr x)
  | send request next ih => exact ⟨hr.1, fun x => ih x (hr.2 x)⟩

/-- What is of one kind and sent may be of a wider one. -/
theorem Run.SendsOnly.imp {Q : Outgoing → Prop} {r : Run α} (hr : r.SendsOnly P)
    (h : ∀ o, P o → Q o) : r.SendsOnly Q := by
  induction r with
  | done a => exact True.intro
  | note event next ih => exact ih hr
  | print stream text next ih => exact ih hr
  | readText path next ih => exact fun x => ih x (hr x)
  | readBytes path next ih => exact fun x => ih x (hr x)
  | write path text next ih => exact fun x => ih x (hr x)
  | append path text next ih => exact fun x => ih x (hr x)
  | makeDirectories path next ih => exact fun x => ih x (hr x)
  | has path next ih => exact fun x => ih x (hr x)
  | time next ih => exact fun x => ih x (hr x)
  | send request next ih => exact ⟨h request hr.1, fun x => ih x (hr.2 x)⟩

/-- Whatever the surroundings answer, a job sends only requests of a kind. -/
def Job.SendsOnly (P : Outgoing → Prop) (t : Job α) : Prop := t.run.SendsOnly P

namespace Job.SendsOnly

theorem bind {t : Job α} {f : α → Job β} (ht : t.SendsOnly P) (hf : ∀ a, (f a).SendsOnly P) :
    (t >>= f).SendsOnly P := by
  refine Run.SendsOnly.bind ht fun x => ?_
  cases x with
  | ok a => exact hf a
  | error e => exact True.intro

theorem imp {t : Job α} {Q : Outgoing → Prop} (ht : t.SendsOnly P) (h : ∀ o, P o → Q o) :
    t.SendsOnly Q :=
  Run.SendsOnly.imp ht h

theorem pure (a : α) : (Pure.pure a : Job α).SendsOnly P := True.intro

theorem fail (failure : Failure) : (Job.fail failure : Job α).SendsOnly P := True.intro

theorem ofExcept (x : Except Failure α) : (Job.ofExcept x).SendsOnly P := by
  cases x <;> exact True.intro

theorem note (event : Log.Event) : (Job.note event).SendsOnly P := True.intro

theorem has (path : String) : (Job.has path).SendsOnly P := fun _ => True.intro

theorem readText (path : String) (blame : FileFault → Failure) :
    (Job.readText path blame).SendsOnly P := by
  refine bind (t := Job.ofRun (.readText path .done)) (fun _ => True.intro) fun answer => ?_
  cases answer <;> exact True.intro

theorem readBytes (path : String) (blame : FileFault → Failure) :
    (Job.readBytes path blame).SendsOnly P := by
  refine bind (t := Job.ofRun (.readBytes path .done)) (fun _ => True.intro) fun answer => ?_
  cases answer <;> exact True.intro

theorem notes (events : List Log.Event) : (Job.notes events).SendsOnly P := by
  induction events with
  | nil => exact True.intro
  | cons event events ih => exact bind (note event) fun _ => ih

end Job.SendsOnly

/-- What is sent to a URL is the request, without user and password. -/
theorem sendTo_sendsOnly (u : Url) (verb : String) (headers : Headers) (body : Option Text.Bytes) :
    (sendTo u verb headers body).SendsOnly
      (· = ⟨verb, u.withoutCredentials.text, headers, body⟩) := by
  unfold sendTo
  dsimp only
  split
  · exact ⟨rfl, fun _ => True.intro⟩
  · exact Job.SendsOnly.pure _

/-! ## Exchanges -/

/-- What an exchange does once its URL is read and its headers are put together. -/
def exchangeWith (s : ExchangeSettings) (url : Url) (r : Request) (headers : Headers) :
    Job ExchangeResult := do
  let shownBody := r.body.map Text.utf8Lossy
  Job.notes (requestNotes r.verb url.text headers shownBody)
  let shown := if s.showsRequests then requestText r.verb url.text shownBody ++ "\n" else ""
  if s.dryRun then
    Job.note ⟨.debug, preparationTarget, "dry run: not making request", []⟩
    return { output := shown }
  else
    match ← sendTo url r.verb headers r.body with
    | .error fault => Job.fail (.requestFailed fault)
    | .ok reply =>
      match reply.body with
      | none => Job.fail (.requestFailed .bodyUnreadable)
      | some bytes =>
        let text := bodyText bytes
        Job.notes (replyNotes reply.status reply.duration text)
        return { output := shown ++ formatBody text, status := reply.status }

/-- An exchange puts the headers together and goes on with them. -/
theorem exchange_eq {serverUrl : String} {r : Request} {u : Url}
    (h : Url.read (r.address serverUrl) = some u) (s : ExchangeSettings) :
    exchange s serverUrl r =
      Job.ofExcept (headersFor r.verb s.headers) >>= exchangeWith s u r := by
  unfold exchange
  dsimp only
  rw [h]
  rfl

/-- Without a URL there is no exchange. -/
theorem exchange_eq_fail {serverUrl : String} {r : Request}
    (h : Url.read (r.address serverUrl) = none) (s : ExchangeSettings) :
    exchange s serverUrl r = Job.fail (.invalidUrl (r.address serverUrl)) := by
  unfold exchange
  simp only [h]

/-- With its headers put together an exchange sends one request at most. -/
theorem exchangeWith_sendsOnly (s : ExchangeSettings) (u : Url) (r : Request) (headers : Headers) :
    (exchangeWith s u r headers).SendsOnly
      (· = ⟨r.verb, u.withoutCredentials.text, headers, r.body⟩) := by
  unfold exchangeWith
  refine Job.SendsOnly.bind (Job.SendsOnly.notes _) fun _ => ?_
  dsimp only
  split
  · exact Job.SendsOnly.bind (Job.SendsOnly.note _) fun _ => Job.SendsOnly.pure _
  · refine Job.SendsOnly.bind (sendTo_sendsOnly u r.verb headers r.body) fun answer => ?_
    cases answer with
    | error fault => exact Job.SendsOnly.fail _
    | ok reply =>
      dsimp only
      split
      · exact Job.SendsOnly.fail _
      · exact Job.SendsOnly.bind (Job.SendsOnly.notes _) fun _ => Job.SendsOnly.pure _

/-- **An exchange sends nothing but its request**, and sends it to the URL that is read from its
address. -/
theorem exchange_sendsOnly {serverUrl : String} {r : Request} {u : Url}
    (h : Url.read (r.address serverUrl) = some u) (s : ExchangeSettings) :
    (exchange s serverUrl r).SendsOnly fun o =>
      o.verb = r.verb ∧ o.url = u.withoutCredentials.text ∧ o.body = r.body := by
  rw [exchange_eq h]
  refine Job.SendsOnly.bind (Job.SendsOnly.ofExcept _) fun headers => ?_
  refine (exchangeWith_sendsOnly s u r headers).imp fun o ho => ?_
  rw [ho]
  exact ⟨rfl, rfl, rfl⟩

-- From here on only the lemmas speak of what is sent: unfolding it would play the whole exchange.
attribute [irreducible] Job.SendsOnly

end ResourceCli
