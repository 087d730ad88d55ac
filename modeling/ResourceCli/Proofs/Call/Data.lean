import ResourceCli.Proofs.Call.Body
import ResourceCli.Proofs.Json.Kept
import ResourceCli.Proofs.Text.Utf8

/-!
# What becomes of whole data

A file with whole data is read, held, and written again into the body of a request.  The body means
the same as the file except for the numbers, each of which means what is written for it; so the
meaning is kept exactly if every number is (`Resource.body_means_iff`).  Integers of sixty-four bits
and decimals of few digits are kept; longer ones may not be (`Resource.isbn_rounded`).
-/

namespace ResourceCli

open Json (IsText Source Quoted Literal)

variable {w w' : World} {path text : String} {members : List (String × Json)}

/-- Whole data that is read is what the JSON text in the file is held as. -/
theorem readData_eq_ok_iff : (readData path).play w = (.ok members, w') ↔
    path ≠ "" ∧ w' = w ∧
      ∃ text, w.disk.readText path = .ok text ∧ Json.read text = .ok (.obj members) := by
  unfold readData
  by_cases hempty : path = ""
  · rw [if_pos (beq_iff_eq.2 hempty)]
    constructor
    · intro h
      cases h
    · rintro ⟨hne, -⟩
      exact absurd hempty hne
  rw [if_neg (show ¬ (path == "") = true from fun h => hempty (beq_iff_eq.1 h)), Job.play_bind,
    Job.play_readText]
  cases htext : w.disk.readText path with
  | error fault =>
    constructor
    · intro h
      cases h
    · rintro ⟨-, -, text, h, -⟩
      cases h
  | ok text =>
    dsimp only [Except.mapError]
    constructor
    · intro h
      split at h
      · rename_i hread
        cases h
        exact ⟨hempty, rfl, text, rfl, hread⟩
      · cases h
      · cases h
    · rintro ⟨-, rfl, text, h, hread⟩
      cases h
      rw [hread]
      rfl

namespace Resource

variable {r : Resource} {c : Call} {request : Request} {t : Source Quoted}

/-- Whether a call sends data along: it creates or changes, or it has a name and posts. -/
def SendsData (c : Call) (request : Request) : Prop :=
  c.method = .create ∨ c.method = .update ∨
    (∃ name, c.method = .custom name) ∧ request.verb = "POST"

/-- A call that sends data along sends the text of its payload. -/
theorem body_eq_payloadText (hsends : SendsData c request) (hrequest : r.request c = .ok request) :
    request.body = some (payloadText c) := by
  have htabled := tabled_of_request hrequest
  generalize hm : c.method = m at htabled
  rw [SendsData, hm] at hsends
  cases htabled with
  | create | createAs | update => rfl
  | get | delete | list =>
    rcases hsends with h | h | ⟨⟨name, h⟩, -⟩ <;> cases h
  | custom name id method =>
    rcases hsends with h | h | ⟨-, hverb⟩
    · cases h
    · cases h
    · exact if_pos hverb

/-- Data is written as a text that means the same as the text it was read off, up to the numbers. -/
theorem exists_isText_of_held {v : Json} (hd : t.Distinct) (hheld : t.held? = some v) :
    ∃ u, IsText u v.compact.toList ∧ u.meaning Literal.value = t.meaning Literal.sent := by
  obtain ⟨u, hu, hmeaning⟩ := Json.exists_isText_compact (Json.isNormal_of_held t hheld)
  exact ⟨u, hu, hmeaning.trans (Json.meaning_of_held t hd hheld)⟩

/-- **The body of a request means what the file with its data means**, exactly if every number in it
is kept, and it does if every number is an integer of sixty-four bits or a decimal of few digits. -/
theorem body_means_iff (hfile : w.disk.readText path = .ok text) (htext : IsText t text.toList)
    (hdistinct : t.Distinct) (hread : (readData path).play w = (.ok members, w'))
    (hdata : c.data = some members) (hsends : SendsData c request)
    (hrequest : r.request c = .ok request) :
    ∃ body u, request.body = some (Text.utf8Encode body) ∧ IsText u body.toList ∧
      u.meaning Literal.value = t.meaning Literal.sent ∧
      (u.meaning Literal.value = t.meaning Literal.value ↔ ∀ l ∈ t.literals, l.sent = l.value) ∧
      ((∀ l ∈ t.literals, l.IsPlain) → u.meaning Literal.value = t.meaning Literal.value) := by
  obtain ⟨-, -, text', hfile', hjson⟩ := readData_eq_ok_iff.1 hread
  rw [hfile] at hfile'
  obtain rfl := Except.ok.inj hfile'
  obtain ⟨u, hu, hmeaning⟩ := exists_isText_of_held hdistinct (htext.held?_of_read hjson)
  have hpayload : c.payload = .obj members := by
    rw [Call.payload, hdata]
    rfl
  have hkept : u.meaning Literal.value = t.meaning Literal.value ↔
      ∀ l ∈ t.literals, l.sent = l.value := by
    rw [hmeaning]
    exact Source.meaning_eq_iff t hdistinct
  refine ⟨(Json.obj members).compact, u, ?_, hu, hmeaning, hkept, fun hplain => ?_⟩
  · rw [body_eq_payloadText hsends hrequest, payloadText, hpayload]
  · exact hkept.2 fun l hl => Literal.sent_of_isPlain (hplain l hl)

/-- Books that can be changed. -/
def changedBook : Resource := { publishedBook with methods := { update := true } }

/-- The call that changes a book to some data. -/
def change (members : List (String × Json)) : Call where
  resource := "book"
  parents := ["acme"]
  method := .update
  id := some "emma"
  data := some members

/-- The text of a file with the number of a book. -/
def isbnText (digits : String) : String := "\x7b\"isbn\": " ++ digits ++ "\x7d"

/-- The world with that file. -/
def isbnWorld (digits : String) : World where
  disk := { entries := [(["isbn.json"], .file (Text.utf8Encode (isbnText digits)))] }

theorem readText_isbn (digits : String) :
    (isbnWorld digits).disk.readText "isbn.json" = .ok (isbnText digits) := by
  have hread : (isbnWorld digits).disk.read "isbn.json" =
      .ok (Text.utf8Encode (isbnText digits)) := rfl
  rw [Disk.readText, hread]
  dsimp only [bind, Except.bind]
  rw [Text.utf8Decode?_utf8Encode]
  rfl

theorem isDigit_of_mem_nil : ∀ c ∈ ([] : List Char), c.isDigit = true :=
  fun _ h => absurd h List.not_mem_nil

/-- The number of a book as it is written in the file. -/
def isbnLiteral (digits : String) (hne : digits.toList ≠ [])
    (hdigits : ∀ c ∈ digits.toList, c.isDigit = true)
    (hzero : digits.toList.head? = some '0' → digits.toList = ['0']) : Literal :=
  ⟨false, digits.toList, [], none, hne, hdigits, hzero, isDigit_of_mem_nil⟩

/-- The value of the text in the file. -/
def isbnSource (l : Literal) : Source Quoted := .obj [(Json.quoted "isbn", .num l)]

theorem isText_isbn {digits : String} {l : Literal} (h : l.text = digits.toList) :
    IsText (isbnSource l) (isbnText digits).toList := by
  refine ⟨[], _, [], .nil, ⟨_, ⟨[], [':', ' '], l.text, ['}'], .nil,
    ⟨[], [' '], .nil, by simp [Json.Spaces, Json.isSpace], rfl⟩, rfl, ⟨[], .nil, rfl⟩, rfl⟩, rfl⟩,
    .nil, ?_⟩
  rw [h, isbnText, String.toList_append, String.toList_append, List.append_nil]
  rfl

theorem distinct_isbn (l : Literal) : (isbnSource l).Distinct :=
  ⟨List.nodup_singleton _, trivial, trivial⟩

/-- A number of thirteen digits. -/
def isbnLong : Literal := isbnLiteral "9780141439587" (by decide) (by simp) (by decide)

/-- A number of more than sixty-four bits. -/
def isbnLonger : Literal :=
  isbnLiteral "12345678901234567890123" (by decide) (by simp) (by decide)

theorem change_accepted (members : List (String × Json)) :
    changedBook.request (change members) = .ok ⟨"PATCH", "publishers/acme/books/emma", none,
      some (Text.utf8Encode (Json.obj members).compact)⟩ := rfl

/-- The only member of an object, if it is a number. -/
def onlyNumber? : Except Json.Defect Json → Option (String × Json.Numeral)
  | .ok (.obj [(key, .num n)]) => some (key, n)
  | _ => none

theorem eq_of_onlyNumber? {result : Except Json.Defect Json} {key : String} {n : Json.Numeral}
    (h : onlyNumber? result = some (key, n)) : result = .ok (.obj [(key, .num n)]) := by
  unfold onlyNumber? at h
  split at h
  · cases h
    rfl
  · cases h

/-- The number of a book that has thirteen digits is sent as it is. -/
theorem isbn_kept : ∃ members request body u,
    (isbnWorld "9780141439587").disk.readText "isbn.json" = .ok (isbnText "9780141439587") ∧
    IsText (isbnSource isbnLong) (isbnText "9780141439587").toList ∧
    (isbnSource isbnLong).Distinct ∧
    (readData "isbn.json").play (isbnWorld "9780141439587") =
      (.ok members, isbnWorld "9780141439587") ∧
    SendsData (change members) request ∧ changedBook.request (change members) = .ok request ∧
    request.body = some (Text.utf8Encode body) ∧ IsText u body.toList ∧
    u.meaning Literal.value = (isbnSource isbnLong).meaning Literal.value := by
  have hfile := readText_isbn "9780141439587"
  have htext : IsText (isbnSource isbnLong) (isbnText "9780141439587").toList := isText_isbn rfl
  have hjson : Json.read (isbnText "9780141439587") =
      .ok (.obj [("isbn", .num (.int 9780141439587))]) := eq_of_onlyNumber? (by decide +kernel)
  have hread : (readData "isbn.json").play (isbnWorld "9780141439587") = (.ok _, _) :=
    readData_eq_ok_iff.2 ⟨by decide, rfl, _, hfile, hjson⟩
  have hrequest := change_accepted [("isbn", .num (.int 9780141439587))]
  obtain ⟨body, u, hbody, hu, -, -, hplain⟩ :=
    body_means_iff hfile htext (distinct_isbn _) hread rfl (.inr (.inl rfl)) hrequest
  refine ⟨_, _, body, u, hfile, htext, distinct_isbn _, hread, .inr (.inl rfl), hrequest, hbody,
    hu, hplain fun l hl => ?_⟩
  obtain rfl := List.mem_singleton.1 hl
  exact .inr ⟨by decide, by decide⟩

/-- The double that a number of more than sixty-four bits is rounded to. -/
def isbnRounded : Number.Binary64 := ⟨false, 5886878443352970, 21⟩

/-- **The number of a book that has more than sixty-four bits is rounded**, and so the body means
something else than the file. -/
theorem isbn_rounded : ∃ members request,
    (isbnWorld "12345678901234567890123").disk.readText "isbn.json" =
      .ok (isbnText "12345678901234567890123") ∧
    IsText (isbnSource isbnLonger) (isbnText "12345678901234567890123").toList ∧
    (isbnSource isbnLonger).Distinct ∧
    (readData "isbn.json").play (isbnWorld "12345678901234567890123") =
      (.ok members, isbnWorld "12345678901234567890123") ∧
    SendsData (change members) request ∧ changedBook.request (change members) = .ok request ∧
    request.body = some (Text.utf8Encode "\x7b\"isbn\":1.2345678901234568e+22\x7d") ∧
    ∀ u, IsText u "\x7b\"isbn\":1.2345678901234568e+22\x7d".toList →
      u.meaning Literal.value ≠ (isbnSource isbnLonger).meaning Literal.value := by
  have hfile := readText_isbn "12345678901234567890123"
  have htext : IsText (isbnSource isbnLonger) (isbnText "12345678901234567890123").toList :=
    isText_isbn rfl
  have hjson : Json.read (isbnText "12345678901234567890123") =
      .ok (.obj [("isbn", .num (.double isbnRounded))]) := eq_of_onlyNumber? (by decide +kernel)
  have hread : (readData "isbn.json").play (isbnWorld "12345678901234567890123") = (.ok _, _) :=
    readData_eq_ok_iff.2 ⟨by decide, rfl, _, hfile, hjson⟩
  have hcompact : (Json.obj [("isbn", .num (.double isbnRounded))]).compact =
      "\x7b\"isbn\":1.2345678901234568e+22\x7d" := by decide +kernel
  have hrequest := change_accepted [("isbn", .num (.double isbnRounded))]
  rw [hcompact] at hrequest
  refine ⟨_, _, hfile, htext, distinct_isbn _, hread, .inr (.inl rfl), hrequest, rfl,
    fun u hu => ?_⟩
  obtain ⟨u', hu', hmeaning⟩ :=
    exists_isText_of_held (distinct_isbn isbnLonger) (htext.held?_of_read hjson)
  rw [hcompact] at hu'
  rw [hu.unique hu', hmeaning, ne_eq, Source.meaning_eq_iff _ (distinct_isbn isbnLonger)]
  intro hkept
  have hsame : isbnLonger.sent = isbnLonger.value := hkept _ (List.mem_singleton_self _)
  have hheld : isbnLonger.held? = some (.double isbnRounded) := by decide +kernel
  have hsent : isbnLonger.sent = 12345678901234568000000 := by
    have hshortest : isbnRounded.shortest = ⟨12345678901234568, 23⟩ := by decide +kernel
    have hlength : (Number.digitsOf 12345678901234568).length = 17 := by decide +kernel
    rw [Literal.sent, hheld, Option.map_some, Option.getD_some, Json.Numeral.value,
      show isbnRounded.isZero = false from rfl, hshortest, Number.Decimal.value, hlength]
    norm_num [isbnRounded]
  have hvalue : isbnLonger.value = 12345678901234567890123 := by
    have hdigits : isbnLonger.digits = 12345678901234567890123 := by decide +kernel
    rw [Literal.value_of_isWhole ⟨rfl, rfl⟩, hdigits]
    norm_num [isbnLonger, isbnLiteral]
  rw [hsent, hvalue] at hsame
  norm_num at hsame

end Resource

end ResourceCli
