import Mathlib.Data.List.Forall2
import ResourceCli.Proofs.Exchange.Headers
import ResourceCli.Proofs.Exchange.Sent

/-!
# Secrets stay with the request

Two runs with headers that differ in nothing but secrets (`AlikeButSecrets`) differ in nothing but
the secrets that are sent.  The names of the headers that are sent are written in small letters
(`headerName?_eq_some`), so that a secret is known as one however its name was written, and a header
that takes the place of another one takes it in both runs.  So what is noted down about the
request is the same, and so is everything else once the values of secret headers are blotted out in
what is sent (`Run.concealed`): what the exchange comes to, what is printed, and what is noted down
about the answer, whatever the surroundings answer.
-/

namespace ResourceCli

open Text (Bytes)

/-! ## Headers that are alike -/

section Alike

variable {α : Type}

/-- Headers with the same names in the same order that differ in nothing but the values of secret
ones. -/
def AlikeButSecrets (given given' : List (String × α)) : Prop :=
  List.Forall₂ (fun h h' => h.1 = h'.1 ∧ (isSecretHeader h.1 = false → h.2 = h'.2)) given given'

/-- Headers are alike to themselves. -/
theorem AlikeButSecrets.refl (given : List (String × α)) : AlikeButSecrets given given :=
  List.forall₂_same.2 fun _ _ => ⟨rfl, fun _ => rfl⟩

/-- What does not tell secrets of one name apart is the same of headers that are alike. -/
theorem AlikeButSecrets.map_eq {β : Type} {given given' : List (String × α)}
    (h : AlikeButSecrets given given') {f : String × α → β}
    (hf : ∀ name a a', isSecretHeader name = true → f (name, a) = f (name, a')) :
    given.map f = given'.map f := by
  induction h with
  | nil => rfl
  | @cons x y given given' hxy _ ih =>
    obtain ⟨name, a⟩ := x
    obtain ⟨name', a'⟩ := y
    obtain ⟨rfl, hvalue⟩ := hxy
    have hhead : f (name, a) = f (name, a') := by
      cases hsecret : isSecretHeader name with
      | true => exact hf name a a' hsecret
      | false => rw [show a = a' from hvalue hsecret]
    rw [List.map_cons, List.map_cons, hhead, ih]

end Alike

/-- Setting a header to values that differ only if it is a secret. -/
theorem AlikeButSecrets.setHeader {headers headers' : Headers}
    (h : AlikeButSecrets headers headers') {name : String} {value value' : Bytes}
    (hvalue : isSecretHeader name = false → value = value') :
    AlikeButSecrets (setHeader name value headers) (setHeader name value' headers') := by
  induction h with
  | nil => exact .cons ⟨rfl, hvalue⟩ .nil
  | @cons x y headers headers' hxy hrest ih =>
    obtain ⟨key, old⟩ := x
    obtain ⟨key', old'⟩ := y
    obtain ⟨rfl, hold⟩ := hxy
    rw [ResourceCli.setHeader, ResourceCli.setHeader]
    split
    · rename_i hkey
      refine .cons ⟨rfl, fun hsecret => hvalue ?_⟩ hrest
      rwa [← eq_of_beq hkey]
    · exact .cons ⟨rfl, hold⟩ ih

/-- Headers that are alike are refused alike, and what is made of them is alike. -/
theorem AlikeButSecrets.addHeaders {given given' : List (String × String)}
    (h : AlikeButSecrets given given') (hgiven : ∀ x ∈ given, isHeaderValue x.2 = true)
    (hgiven' : ∀ x ∈ given', isHeaderValue x.2 = true) {headers headers' : Headers}
    (hheaders : AlikeButSecrets headers headers') :
    (∃ e, addHeaders headers given = .error e ∧ addHeaders headers' given' = .error e) ∨
      ∃ all all', addHeaders headers given = .ok all ∧ addHeaders headers' given' = .ok all' ∧
        AlikeButSecrets all all' := by
  induction h generalizing headers headers' with
  | nil => exact .inr ⟨headers, headers', rfl, rfl, hheaders⟩
  | @cons x y given given' hxy _ ih =>
    obtain ⟨name, value⟩ := x
    obtain ⟨name', value'⟩ := y
    obtain ⟨rfl, hvalue⟩ := hxy
    rw [ResourceCli.addHeaders, ResourceCli.addHeaders]
    cases hname : headerName? name with
    | none => exact .inl ⟨_, rfl, rfl⟩
    | some key =>
      have hok : isHeaderValue value = true := hgiven _ List.mem_cons_self
      have hok' : isHeaderValue value' = true := hgiven' _ List.mem_cons_self
      simp only [hok, hok', if_true]
      refine ih (fun x hx => hgiven x (List.mem_cons_of_mem _ hx))
        (fun x hx => hgiven' x (List.mem_cons_of_mem _ hx)) (hheaders.setHeader fun hsecret => ?_)
      rw [show value = value' from hvalue (isSecretHeader_of_headerName? hname ▸ hsecret)]

/-- The headers of a request are refused alike, or what is put together of them is alike. -/
theorem AlikeButSecrets.headersFor {given given' : List (String × String)}
    (h : AlikeButSecrets given given') (hgiven : ∀ x ∈ given, isHeaderValue x.2 = true)
    (hgiven' : ∀ x ∈ given', isHeaderValue x.2 = true) (verb : String) :
    (∃ e, headersFor verb given = .error e ∧ headersFor verb given' = .error e) ∨
      ∃ all all', headersFor verb given = .ok all ∧ headersFor verb given' = .ok all' ∧
        AlikeButSecrets all all' :=
  h.addHeaders hgiven hgiven' (AlikeButSecrets.refl _)

/-- What is noted down about a request does not depend on its secrets. -/
theorem AlikeButSecrets.requestNotes_eq {headers headers' : Headers}
    (h : AlikeButSecrets headers headers') (verb url : String) (body : Option String) :
    requestNotes verb url headers body = requestNotes verb url headers' body := by
  have hlines := h.map_eq (f := fun x : String × Bytes => (⟨.trace, exchangeTarget,
      "  " ++ x.1 ++ ": " ++ shownValue x.1 x.2, []⟩ : Log.Event))
    fun name value value' hsecret => by
      rw [shownValue, shownValue, if_pos hsecret, if_pos hsecret]
  unfold requestNotes
  exact congrArg (fun lines : List Log.Event => _ ++ lines ++ _) hlines

/-! ## Runs without the secrets that they send -/

/-- A request with the values of its secret headers blotted out. -/
def Outgoing.concealed (o : Outgoing) : Outgoing :=
  { o with headers := o.headers.map fun h => (h.1, if isSecretHeader h.1 then [] else h.2) }

/-- A run with the values of secret headers blotted out in what it sends. -/
def Run.concealed {α : Type} : Run α → Run α
  | .done result => .done result
  | .note event next => .note event next.concealed
  | .print stream text next => .print stream text next.concealed
  | .readText path next => .readText path fun x => (next x).concealed
  | .readBytes path next => .readBytes path fun x => (next x).concealed
  | .write path text next => .write path text fun x => (next x).concealed
  | .append path text next => .append path text fun x => (next x).concealed
  | .makeDirectories path next => .makeDirectories path fun x => (next x).concealed
  | .has path next => .has path fun x => (next x).concealed
  | .time next => .time fun x => (next x).concealed
  | .send request next => .send request.concealed fun x => (next x).concealed

theorem Run.concealed_bind {α β : Type} (r : Run α) (f : α → Run β) :
    (r.bind f).concealed = r.concealed.bind fun a => (f a).concealed := by
  induction r with
  | done _ => rfl
  | note _ _ ih | print _ _ _ ih => rw [bind, concealed, ih, concealed, bind]
  | readText _ _ ih | readBytes _ _ ih | write _ _ _ ih | append _ _ _ ih
  | makeDirectories _ _ ih | has _ _ ih | time _ ih | send _ _ ih => exact congrArg _ (funext ih)

/-- A job with the values of secret headers blotted out in what it sends. -/
def Job.concealed {α : Type} (t : Job α) : Job α := ExceptT.mk t.run.concealed

theorem Job.concealed_bind {α β : Type} (t : Job α) (f : α → Job β) :
    (t >>= f).concealed = t.concealed >>= fun a => (f a).concealed := by
  refine (Run.concealed_bind t.run _).trans (congrArg _ (funext fun x => ?_))
  cases x <;> rfl

/-- Requests with headers that are alike differ in nothing but secrets. -/
theorem AlikeButSecrets.sendTo_concealed {headers headers' : Headers}
    (h : AlikeButSecrets headers headers') (url : Url) (verb : String) (body : Option Bytes) :
    (sendTo url verb headers body).concealed = (sendTo url verb headers' body).concealed := by
  have hsent : (⟨verb, url.withoutCredentials.text, headers, body⟩ : Outgoing).concealed =
      (⟨verb, url.withoutCredentials.text, headers', body⟩ : Outgoing).concealed := by
    unfold Outgoing.concealed
    congr 1
    refine h.map_eq fun name value value' hsecret => ?_
    rw [if_pos hsecret, if_pos hsecret]
  unfold sendTo
  dsimp only
  split
  · exact congrArg (fun o : Outgoing => (Job.ofRun (.send o .done) : Job _)) hsent
  · rfl

theorem AlikeButSecrets.exchangeWith_dryRun {headers headers' : Headers}
    (h : AlikeButSecrets headers headers') {s : ExchangeSettings} (hs : s.dryRun = true) (url : Url)
    (r : Request) : exchangeWith s url r headers = exchangeWith s url r headers' := by
  unfold exchangeWith
  simp only [hs, if_true, h.requestNotes_eq]

theorem AlikeButSecrets.exchangeWith_concealed {headers headers' : Headers}
    (h : AlikeButSecrets headers headers') (s : ExchangeSettings) (url : Url) (r : Request) :
    (exchangeWith s url r headers).concealed = (exchangeWith s url r headers').concealed := by
  unfold exchangeWith
  simp only [h.requestNotes_eq]
  rw [Job.concealed_bind, Job.concealed_bind]
  congr 1
  funext _
  split
  · rfl
  · rw [Job.concealed_bind, Job.concealed_bind, h.sendTo_concealed]

/-- Headers that are alike make the same exchange, or one that goes on with headers that are put
together alike. -/
theorem AlikeButSecrets.exchange {given given' : List (String × String)}
    (h : AlikeButSecrets given given') (hgiven : ∀ x ∈ given, isHeaderValue x.2 = true)
    (hgiven' : ∀ x ∈ given', isHeaderValue x.2 = true) (s : ExchangeSettings) (serverUrl : String)
    (r : Request) :
    exchange { s with headers := given } serverUrl r =
        exchange { s with headers := given' } serverUrl r ∨
      ∃ url all all', AlikeButSecrets all all' ∧
        exchange { s with headers := given } serverUrl r = exchangeWith s url r all ∧
        exchange { s with headers := given' } serverUrl r = exchangeWith s url r all' := by
  cases hurl : Url.read (r.address serverUrl) with
  | none => exact .inl (by rw [exchange_eq_fail hurl, exchange_eq_fail hurl])
  | some url =>
    rw [exchange_eq hurl, exchange_eq hurl]
    rcases h.headersFor hgiven hgiven' r.verb with ⟨e, he, he'⟩ | ⟨all, all', hall, hall', halike⟩
    · rw [he, he']
      exact .inl rfl
    · rw [hall, hall']
      exact .inr ⟨url, all, all', halike, rfl, rfl⟩

/-- **Secrets stay with the request.**  Headers that are alike make exchanges that are the same but
for the secrets that are sent: a dry run is the very same, with what it comes to and all that is
noted down; what is noted down about a request with such headers is the same; and so is an exchange
with the secrets blotted out in what it sends, whatever the surroundings answer. -/
theorem exchange_concealed {given given' : List (String × String)}
    (h : AlikeButSecrets given given') (hgiven : ∀ x ∈ given, isHeaderValue x.2 = true)
    (hgiven' : ∀ x ∈ given', isHeaderValue x.2 = true) (s : ExchangeSettings) (serverUrl : String)
    (r : Request) :
    exchange { s with headers := given, dryRun := true } serverUrl r =
        exchange { s with headers := given', dryRun := true } serverUrl r ∧
      (∀ verb url body, (headersFor verb given).map (requestNotes verb url · body) =
        (headersFor verb given').map (requestNotes verb url · body)) ∧
      (exchange { s with headers := given } serverUrl r).concealed =
        (exchange { s with headers := given' } serverUrl r).concealed := by
  refine ⟨?_, fun verb url body => ?_, ?_⟩
  · rcases h.exchange hgiven hgiven' { s with dryRun := true } serverUrl r with
      hsame | ⟨url, all, all', halike, hall, hall'⟩
    · exact hsame
    · rw [hall, hall', halike.exchangeWith_dryRun rfl]
  · rcases h.headersFor hgiven hgiven' verb with ⟨e, he, he'⟩ | ⟨all, all', hall, hall', halike⟩
    · rw [he, he']
    · rw [hall, hall']
      exact congrArg Except.ok (halike.requestNotes_eq verb url body)
  · rcases h.exchange hgiven hgiven' s serverUrl r with
      hsame | ⟨url, all, all', halike, hall, hall'⟩
    · rw [hsame]
    · rw [hall, hall', halike.exchangeWith_concealed]

/-- A secret that is given, and given again in other letters, with a header between them. -/
def secretTwice (value value' : String) : List (String × String) :=
  [("Authorization", value), ("X-Trace", "1"), ("AUTHORIZATION", value')]

/-- Headers with different secrets make the same dry run and the same notes, with the last secret
that is given blotted out, though what would be sent is not the same. -/
theorem secretTwice_concealed :
    exchange { headers := secretTwice "a" "b", dryRun := true } "http://localhost"
        { verb := "GET", path := "/books" } =
      exchange { headers := secretTwice "c" "d", dryRun := true } "http://localhost"
        { verb := "GET", path := "/books" } ∧
    (headersFor "GET" (secretTwice "a" "b")).toOption.map
        (requestNotes "GET" "http://localhost/books" · none) =
      some [⟨.debug, exchangeTarget, "→ GET http://localhost/books", []⟩,
        ⟨.trace, exchangeTarget, "  content-type: application/json", []⟩,
        ⟨.trace, exchangeTarget, "  authorization: [REDACTED]", []⟩,
        ⟨.trace, exchangeTarget, "  x-trace: 1", []⟩] ∧
    (headersFor "GET" (secretTwice "a" "b")).toOption ≠
      (headersFor "GET" (secretTwice "c" "d")).toOption := by
  have halike : AlikeButSecrets (secretTwice "a" "b") (secretTwice "c" "d") :=
    .cons ⟨rfl, by decide⟩ (.cons ⟨rfl, fun _ => rfl⟩ (.cons ⟨rfl, by decide⟩ .nil))
  obtain ⟨hdry, -, -⟩ := exchange_concealed halike (by decide) (by decide) {} "http://localhost"
    { verb := "GET", path := "/books" }
  exact ⟨hdry, by decide +kernel, by decide +kernel⟩

end ResourceCli
