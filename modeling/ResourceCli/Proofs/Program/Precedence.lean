import ResourceCli.Proofs.Document.Written
import ResourceCli.Proofs.Exchange.Headers
import ResourceCli.Proofs.Input.Fields
import ResourceCli.Proofs.Program.Silent
import ResourceCli.Proofs.Run.Asked
import ResourceCli.Proofs.Survey.Methods
import ResourceCli.Proofs.Survey.Server
import ResourceCli.Proofs.Text.Utf8

/-!
# What a command line says and what is stored

Where a command line names an alias, both say something about the requests: where the server is,
what the paths of the document start with, and which headers are sent.  For server and prefix the
alias is asked only if the command line gives none (`firstGiven`).  Headers are put one after the
other instead, those of the alias behind those of the command line, and of several with one name the
last one is sent.

`IsServed` says so of one request, and `serveApi_asks` of every request that a run asks for, in any
world: it is the one for the document, or it is served like that.  So a header of the command line
has no effect if the alias has one of the same name, which is `IsServed.headersCount_iff`.
-/

namespace ResourceCli

/-! ## What is said twice -/

/-- Of a text that is given and one that is stored the one that is given, if there is anything in
it. -/
def firstGiven (given : Option String) (stored : String) : String :=
  match given with
  | some text => if text = "" then stored else text
  | none => stored

/-- The headers that are given, each as `key=value`. -/
def headersIn (texts : List String) : List (String × String) :=
  texts.filterMap fun text => (readHeader text).toOption

theorem headersIn_append (texts texts' : List String) :
    headersIn (texts ++ texts') = headersIn texts ++ headersIn texts' :=
  List.filterMap_append

/-- If all headers are well formed, they are the ones that are read. -/
theorem headersIn_of_mapM {texts : List String} {given : List (String × String)}
    (h : texts.mapM readHeader = .ok given) : headersIn texts = given := by
  have hmap := map_of_mapM_eq_ok (g := some) (k := fun text => (readHeader text).toOption) h
    fun text x hx => by rw [hx]; rfl
  have hids : headersIn texts =
      (texts.map fun text => (readHeader text).toOption).filterMap id := by
    rw [List.filterMap_map]
    rfl
  rw [hids, ← hmap, List.filterMap_map]
  exact List.filterMap_some

theorem withAlias_pathPrefix (o : Options) (a : ApiAlias) (location : String) :
    ((Target.ofOptions o).withAlias location a).pathPrefix =
      firstGiven o.pathPrefix a.pathPrefix := by
  cases h : o.pathPrefix with
  | none => simp [Target.withAlias, Target.ofOptions, firstGiven, h]
  | some text => simp [Target.withAlias, Target.ofOptions, firstGiven, h]

/-- A URL with nothing in it is as good as none. -/
theorem resources_withAlias (doc : Document) (o : Options) (a : ApiAlias)
    (location start : String) :
    doc.resources ((Target.ofOptions o).withAlias location a).serverUrl start =
      doc.resources (some (firstGiven o.serverUrl a.serverUrl)) start := by
  have hurl : Survey.serverUrl doc ((Target.ofOptions o).withAlias location a).serverUrl start =
      Survey.serverUrl doc (some (firstGiven o.serverUrl a.serverUrl)) start := by
    have hfilter : (((Target.ofOptions o).withAlias location a).serverUrl).filter (· != "") =
        (some (firstGiven o.serverUrl a.serverUrl)).filter (· != "") := by
      unfold Target.withAlias Target.ofOptions firstGiven
      cases o.serverUrl with
      | none => by_cases ha : a.serverUrl = "" <;> simp [ha, Option.filter_some]
      | some text =>
        by_cases htext : text = "" <;> by_cases ha : a.serverUrl = "" <;>
          simp [htext, ha, Option.filter_some]
    unfold Survey.serverUrl
    rw [hfilter]
  unfold Document.resources Document.survey Survey.run
  rw [hurl]

/-- A request to the API of an alias, with the settings of the command line and those of the
alias. -/
structure IsServed (store : AliasStore) (certificates : Nat) (o : Options) (a : ApiAlias)
    (start : World) (doc : Document) (g : ResourceGraph) (out : Outgoing) : Prop where
  /-- The document is the one that is loaded from where the alias has it. -/
  loaded : ∃ t w w', (store.targetOf o).play start = (.ok t, w) ∧
    t.location = store.documentLocation a ∧
    (loadDocument certificates t.location).play w = (.ok doc, w')
  /-- Server and prefix are those of the command line, and where it gives none those of the
  alias. -/
  resources : doc.resources (some (firstGiven o.serverUrl a.serverUrl))
    (firstGiven o.pathPrefix a.pathPrefix) = .ok g
  /-- The server that the command line gives is the server. -/
  server : ∀ url, o.serverUrl = some url → url ≠ "" → g.serverUrl = url
  /-- The request is the one that the words ask for, and goes to the server. -/
  sent : ∃ name words r request u w w', o.words = name :: words ∧ g.find name = .ok r ∧
    (r.compile words).play w = (.ok (.request request), w') ∧
    Url.read (request.address g.serverUrl) = some u ∧
    out.verb = request.verb ∧ out.url = u.withoutCredentials.text ∧ out.body = request.body
  /-- Under a name the value is sent that is given last for it by the alias, or else by the command
  line. -/
  values : ∀ name, Headers.values out.headers name =
    ((((lastValue? name (headersIn a.headers)).or (lastValue? name (headersIn o.headers))).or
      (if sameName "content-type" name then some (contentType out.verb) else none)).map
        Text.utf8Encode).toList

/-- The headers of a command line count: under a name that it gives, the value is sent that it gives
last. -/
def Options.HeadersCount (o : Options) (out : Outgoing) : Prop :=
  ∀ name value, lastValue? name (headersIn o.headers) = some value →
    Headers.values out.headers name = [Text.utf8Encode value]

/-! ## What is asked for -/

variable {store : AliasStore} {certificates : Nat} {o : Options} {a : ApiAlias} {w w' : World}
  {out : Outgoing}

/-- What is noted down about the alias that is used. -/
def aliasNote (a : ApiAlias) : Log.Event :=
  ⟨.debug, apiTarget, "using configured API", [("alias", .plain a.name)]⟩

/-- The target of a command line that names an alias. -/
theorem play_targetOf (h : (store.find? o.target).play w = (.ok (some a), w')) :
    (store.targetOf o).play w =
      (.ok ((Target.ofOptions o).withAlias (store.documentLocation a) a),
        { w' with notes := w'.notes ++ [aliasNote a] }) := by
  unfold AliasStore.targetOf
  rw [Job.play_bind_ok h]
  rfl

/-- The resources that are found are those of the document. -/
theorem resources_of_play {doc : Document} {serverUrl : Option String} {start : String}
    {g : ResourceGraph} (h : (findResources doc serverUrl start).play w = (.ok g, w')) :
    doc.resources serverUrl start = .ok g := by
  unfold findResources at h
  obtain ⟨w₁, hnotes⟩ := Job.exists_play_notes (doc.survey serverUrl start).2 w
  rw [Job.play_bind_ok hnotes] at h
  exact (Job.play_ofExcept_eq_ok_iff.1 h).1

/-- What serving the words of a command line asks for. -/
theorem exists_of_mem_asked_serve {g : ResourceGraph} {s : ExchangeSettings} {words : List String}
    (h : out ∈ (g.serve s words).asked w) :
    ∃ name rest r request u headers w₁ w₂, words = name :: rest ∧ g.find name = .ok r ∧
      (r.compile rest).play w₁ = (.ok (.request request), w₂) ∧
      Url.read (request.address g.serverUrl) = some u ∧
      headersFor request.verb s.headers = .ok headers ∧
      out = ⟨request.verb, u.withoutCredentials.text, headers, request.body⟩ := by
  unfold ResourceGraph.serve at h
  cases words with
  | nil => cases h
  | cons name rest =>
    dsimp only at h
    split at h
    · cases h
    · cases hfind : g.find name with
      | error failure =>
        rw [hfind] at h
        cases h
      | ok r =>
        rw [hfind] at h
        obtain ⟨compiled, w₁, hcompile, h⟩ :=
          Job.exists_of_mem_asked_bind (r.compile_sendsOnly rest) h
        cases compiled with
        | description text => cases h
        | request request =>
          cases hurl : Url.read (request.address g.serverUrl) with
          | none =>
            dsimp only at h
            rw [exchange_eq_fail hurl] at h
            cases h
          | some u =>
            dsimp only at h
            rw [exchange_eq hurl] at h
            obtain ⟨headers, w₂, hheaders, h⟩ :=
              Job.exists_of_mem_asked_bind (Job.SendsOnly.ofExcept _) h
            exact ⟨name, rest, r, request, u, headers, w, w₁, rfl, hfind, hcompile, hurl,
              (Job.play_ofExcept_eq_ok_iff.1 hheaders).1,
              (exchangeWith_sendsOnly s u request headers).of_mem_asked h⟩

/-- What is left to do once the document is there. -/
def serveLoaded (certificates : Nat) (o : Options) (t : Target) (headers : List (String × String))
    (doc : Document) : Job ExchangeResult := do
  let graph ← findResources doc t.serverUrl t.pathPrefix
  Job.note ⟨.debug, apiTarget, "resolved resource graph",
    [("resources", .count graph.names.length), ("server_url", .plain graph.serverUrl)]⟩
  let settings := o.exchangeSettings certificates headers
  prepareExchange settings
  graph.serve settings o.words

/-- What is asked for where a command line names an alias: what it takes to load the document, and
what is left to do then. -/
theorem mem_asked_serveApi_iff (h : (store.find? o.target).play w = (.ok (some a), w')) :
    out ∈ (store.serveApi certificates o).asked w ↔
      ∃ t headers w₁, t = (Target.ofOptions o).withAlias (store.documentLocation a) a ∧
        (store.targetOf o).play w = (.ok t, w₁) ∧
        t.headers.mapM readHeader = .ok headers ∧
        (out ∈ (loadDocument certificates t.location).asked w₁ ∨
          ∃ doc w₂, (loadDocument certificates t.location).play w₁ = (.ok doc, w₂) ∧
            out ∈ (serveLoaded certificates o t headers doc).asked w₂) := by
  have hplay := play_targetOf h
  have heq : store.serveApi certificates o = (do
      let t ← store.targetOf o
      let headers ← Job.ofExcept (t.headers.mapM readHeader)
      let doc ← loadDocument certificates t.location
      serveLoaded certificates o t headers doc) := rfl
  rw [heq]
  constructor
  · intro hout
    obtain ⟨t, w₁, ht, hout⟩ := Job.exists_of_mem_asked_bind (store.targetOf_sendsOnly o) hout
    obtain ⟨headers, w₁', hheaders, hout⟩ :=
      Job.exists_of_mem_asked_bind (Job.SendsOnly.ofExcept _) hout
    obtain ⟨hread, rfl⟩ := Job.play_ofExcept_eq_ok_iff.1 hheaders
    refine ⟨t, headers, w₁, ?_, ht, hread, Job.mem_asked_bind_iff.1 hout⟩
    rw [hplay] at ht
    cases ht
    rfl
  · rintro ⟨t, headers, w₁, -, ht, hread, hout⟩
    refine Job.mem_asked_bind_iff.2 (.inr ⟨t, w₁, ht, ?_⟩)
    exact Job.mem_asked_bind_iff.2 (.inr ⟨headers, w₁,
      Job.play_ofExcept_eq_ok_iff.2 ⟨hread, rfl⟩, Job.mem_asked_bind_iff.2 hout⟩)

/-- The headers of the command line count exactly if the alias has no other value for a name that
the command line gives. -/
theorem IsServed.headersCount_iff {start : World} {doc : Document} {g : ResourceGraph}
    (h : IsServed store certificates o a start doc g out) :
    o.HeadersCount out ↔ ∀ name given stored, lastValue? name (headersIn o.headers) = some given →
      lastValue? name (headersIn a.headers) = some stored → stored = given := by
  constructor
  · intro hcount name given stored hgiven hstored
    have hvalues := hcount name given hgiven
    rw [h.values, hstored] at hvalues
    exact Text.utf8Encode_inj.1 (List.singleton_inj.1 hvalues)
  · intro hsame name given hgiven
    rw [h.values, hgiven]
    cases hstored : lastValue? name (headersIn a.headers) with
    | none => rfl
    | some stored =>
      rw [hsame name given stored hgiven hstored]
      rfl

/-- **What is asked for where a command line names an alias.**  Every request is that for the
document of the alias, or it goes to its API with the server and the prefix of the command line, as
far as it gives them, and with the headers of both.  Under a name that both give, though, the value
of the alias is sent, so that the headers of the command line count exactly if the alias has no
other value for one of their names. -/
theorem serveApi_asks (h : (store.find? o.target).play w = (.ok (some a), w'))
    (hout : out ∈ (store.serveApi certificates o).asked w) :
    (∃ u, Url.read (store.documentLocation a) = some u ∧
      out = ⟨"GET", u.withoutCredentials.text, [], none⟩) ∨
    ∃ doc g, IsServed store certificates o a w doc g out ∧
      (o.HeadersCount out ↔
        ∀ name given stored, lastValue? name (headersIn o.headers) = some given →
          lastValue? name (headersIn a.headers) = some stored → stored = given) := by
  obtain ⟨t, headers, w₁, rfl, ht, hread, hout⟩ := (mem_asked_serveApi_iff h).1 hout
  rcases hout with hfetch | ⟨doc, w₂, hdoc, hout⟩
  · exact .inl ((loadDocument_sendsOnly _ _).of_mem_asked hfetch)
  obtain ⟨g, w₃, hg, hout⟩ := Job.exists_of_mem_asked_bind (findResources_sendsOnly _ _ _) hout
  obtain ⟨_, w₄, -, hout⟩ := Job.exists_of_mem_asked_bind (Job.SendsOnly.note _) hout
  obtain ⟨_, w₅, -, hout⟩ := Job.exists_of_mem_asked_bind (prepareExchange_sendsOnly _) hout
  obtain ⟨name, words, r, request, u, all, v, v', hwords, hfind, hcompile, hurl, hall, rfl⟩ :=
    exists_of_mem_asked_serve hout
  have hresources := resources_of_play hg
  rw [withAlias_pathPrefix, resources_withAlias] at hresources
  have hserved : IsServed store certificates o a w doc g
      ⟨request.verb, u.withoutCredentials.text, all, request.body⟩ := by
    refine ⟨⟨_, w₁, w₂, ht, rfl, hdoc⟩, hresources, ?_,
      ⟨name, words, r, request, u, v, v', hwords, hfind, hcompile, hurl, rfl, rfl, rfl⟩,
      fun name => ?_⟩
    · intro url hgiven hne
      have hfirst : firstGiven o.serverUrl a.serverUrl = url := by
        rw [hgiven, firstGiven, if_neg hne]
      obtain ⟨-, -, -, -, hserver, -⟩ := Survey.resources_ok_iff.1 hresources
      rcases Document.serverUrl_ok_cases hserver with ⟨_, ⟨⟩, -, heq⟩ | ⟨hempty, -⟩
      · rw [heq, hfirst]
      · exact absurd (hfirst ▸ hempty _ rfl) hne
    · have hboth : headersIn (o.headers ++ a.headers) = headers := headersIn_of_mapM hread
      rw [Headers.values_headersFor hall, ← lastValue?_append, ← headersIn_append, hboth]
      rfl
  exact .inr ⟨doc, g, hserved, hserved.headersCount_iff⟩

/-! ## A shop -/

/-- An alias that is in a file that can be read is found. -/
theorem play_find? {text : String} {settings : Settings} (hhas : w.disk.has store.file = true)
    (htext : w.disk.readText store.file = .ok text)
    (hread : store.format.read? text = some settings) (name : String) :
    (store.find? name).play w = (.ok (settings.find? name), w) := by
  have hthere : (Job.has store.file).play w = (.ok true, w) := by
    rw [← hhas]
    rfl
  have hfile : (Job.readText store.file Failure.file).play w = (.ok text, w) := by
    rw [Job.play_readText, htext]
    rfl
  have hload : store.load.play w = (.ok settings, w) := by
    unfold AliasStore.load
    rw [Job.play_bind_ok hthere, if_pos rfl, Job.play_bind_ok hfile]
    simp only [hread]
    rfl
  rw [AliasStore.find?, Job.play_map, hload]
  rfl

/-- A document in a file is loaded if it can be read. -/
theorem play_loadDocument {location text : String} {doc : Document}
    (hfile : isServerUrl location = false) (htext : w.disk.readText location = .ok text)
    (hread : Document.read text = .ok doc) :
    (loadDocument certificates location).play w =
      (.ok doc, { w with notes := w.notes ++
        [⟨.debug, loadTarget, "reading OpenAPI document", [("path", .plain location)]⟩] }) := by
  have hload : (loadText certificates location).play w =
      (.ok text, { w with notes := w.notes ++
        [⟨.debug, loadTarget, "reading OpenAPI document", [("path", .plain location)]⟩] }) := by
    unfold loadText
    rw [hfile, if_neg Bool.false_ne_true, Job.play_bind_ok (Job.play_note _ w), Job.play_readText,
      htext]
    rfl
  unfold loadDocument
  rw [Job.play_bind_ok hload, Job.play_ofExcept, hread]
  rfl

/-- An alias of a shop, with a header. -/
def shop : ApiAlias where
  name := "shop"
  document := "b.json"
  headers := ["X-Trace=stored"]

/-- The file with the alias. -/
def shopSettings : String :=
  "[apis.shop]\nname=\"shop\"\nopenapi_path=\"b.json\"\nheaders=[\"X-Trace=stored\"]\n"

/-- What the shop sells. -/
def bookshop : Document where
  openapi := some "3.1.0"
  paths := [("/books/{book}", { get := some { responses := answering (.refTo "#/Book") } })]
  components := [("Book", {})]

/-- The document of the shop as it is written. -/
def bookshopText : String := bookshop.toJson.compact

/-- A disk with both files. -/
def shopWorld : World where
  disk := { entries := [(["cfg"], .directory),
    (["cfg", "config.toml"], .file (Text.utf8Encode shopSettings)),
    (["cfg", "b.json"], .file (Text.utf8Encode bookshopText))] }

/-- The file of the aliases on that disk. -/
def cfgStore : AliasStore := { file := "/cfg/config.toml" }

/-- A command line that asks for a book of the shop, with a header. -/
def askingWith (header : String) : Options where
  target := "shop"
  words := ["book", "get", "emma"]
  headers := [header]
  serverUrl := some "http://localhost"

theorem read_shopSettings :
    Settings.ofToml? shopSettings = some { aliases := [("shop", shop)] } := by
  decide +kernel

theorem read_bookshop : Document.read bookshopText = .ok bookshop := by
  have hdistinct : bookshop.distinct = true := by decide +kernel
  have hnesting : bookshop.toJson.nesting ≤ Json.maxDepth := by decide +kernel
  rw [bookshopText, Json.compact, Json.compactChars_eq_text _ 0]
  exact (Document.read_text .compact hdistinct hnesting).2

theorem find_shop : (cfgStore.find? "shop").play shopWorld = (.ok (some shop), shopWorld) := by
  have hhas : shopWorld.disk.has cfgStore.file = true := by decide +kernel
  have htext : shopWorld.disk.readText cfgStore.file = .ok shopSettings :=
    Document.toOption_eq_some_iff.1 (by decide +kernel)
  exact play_find? hhas htext read_shopSettings "shop"

/-- The target of a command line that asks for a book. -/
def shopTarget (header : String) : Target :=
  (Target.ofOptions (askingWith header)).withAlias (cfgStore.documentLocation shop) shop

/-- The world once the document of the shop is there. -/
def shopLoaded : World :=
  { shopWorld with notes := [aliasNote shop,
    ⟨.debug, loadTarget, "reading OpenAPI document", [("path", .plain "/cfg/b.json")]⟩] }

/-- What is left to do once the document of the shop is there is done. -/
theorem mem_asked_shop {header name value : String} (hread : readHeader header = .ok (name, value))
    (hout : out ∈ (serveLoaded 0 (askingWith header) (shopTarget header)
      [(name, value), ("X-Trace", "stored")] bookshop).asked shopLoaded) :
    out ∈ (cfgStore.serveApi 0 (askingWith header)).asked shopWorld := by
  have hheaders : (shopTarget header).headers.mapM readHeader =
      .ok [(name, value), ("X-Trace", "stored")] := by
    have hstored : readHeader "X-Trace=stored" = .ok ("X-Trace", "stored") :=
      Document.toOption_eq_some_iff.1 (by decide +kernel)
    exact mapM_eq_ok_iff.2 (.cons hread (.cons hstored .nil))
  have hlocation : (shopTarget header).location = "/cfg/b.json" :=
    show cfgStore.documentLocation shop = "/cfg/b.json" by decide +kernel
  have htext : shopWorld.disk.readText "/cfg/b.json" = .ok bookshopText :=
    Document.toOption_eq_some_iff.1 (by decide +kernel)
  have hdoc : (loadDocument 0 (shopTarget header).location).play
      { shopWorld with notes := shopWorld.notes ++ [aliasNote shop] } =
        (.ok bookshop, shopLoaded) := by
    rw [hlocation]
    exact play_loadDocument (by decide +kernel) htext read_bookshop
  exact (mem_asked_serveApi_iff find_shop).2 ⟨shopTarget header, _, _, rfl,
    play_targetOf find_shop, hheaders, .inr ⟨bookshop, _, hdoc, hout⟩⟩

/-- A book of the shop is asked for at the server of the command line; a header that the alias does
not have is sent as it is given. -/
theorem shop_own : ∃ out ∈ (cfgStore.serveApi 0 (askingWith "X-Own=1")).asked shopWorld, ∃ doc g,
    IsServed cfgStore 0 (askingWith "X-Own=1") shop shopWorld doc g out ∧
      g.serverUrl = "http://localhost" ∧ out.url = "http://localhost/books/emma" ∧
      Headers.values out.headers "x-own" = [Text.utf8Encode "1"] ∧
      (askingWith "X-Own=1").HeadersCount out := by
  have hasked : ((serveLoaded 0 (askingWith "X-Own=1") (shopTarget "X-Own=1")
      [("X-Own", "1"), ("X-Trace", "stored")] bookshop).asked shopLoaded).map (fun out =>
        (out.url, Headers.values out.headers "x-own")) =
      [("http://localhost/books/emma", [Text.utf8Encode "1"])] := by decide +kernel
  obtain ⟨out, hout, hsent⟩ := List.mem_map.1 (hasked ▸ List.mem_singleton_self _)
  obtain ⟨hurl, hvalues⟩ := Prod.mk.inj hsent
  have hread : readHeader "X-Own=1" = .ok ("X-Own", "1") :=
    Document.toOption_eq_some_iff.1 (by decide +kernel)
  have hmem := mem_asked_shop hread hout
  rcases serveApi_asks find_shop hmem with ⟨u, -, rfl⟩ | ⟨doc, g, hserved, hcount⟩
  · cases hvalues
  refine ⟨out, hmem, doc, g, hserved, hserved.server _ rfl (by decide), hurl, hvalues,
    hcount.2 fun name given stored hgiven hstored => ?_⟩
  have hown : headersIn (askingWith "X-Own=1").headers = [("X-Own", "1")] := by decide +kernel
  have htrace : headersIn shop.headers = [("X-Trace", "stored")] := by decide +kernel
  rw [hown] at hgiven
  rw [htrace] at hstored
  obtain ⟨_, hmem, hsame⟩ := exists_of_lastValue? hgiven
  obtain ⟨_, hmem', hsame'⟩ := exists_of_lastValue? hstored
  cases List.mem_singleton.1 hmem
  cases List.mem_singleton.1 hmem'
  have hnames := (eq_of_beq hsame).trans (eq_of_beq hsame').symm
  exact absurd hnames (by decide +kernel)

/-- A header that both give is sent as the alias has it. -/
theorem shop_overrules : ∃ out ∈ (cfgStore.serveApi 0 (askingWith "X-Trace=given")).asked shopWorld,
    out.url = "http://localhost/books/emma" ∧
      lastValue? "x-trace" (headersIn (askingWith "X-Trace=given").headers) = some "given" ∧
      Headers.values out.headers "x-trace" = [Text.utf8Encode "stored"] ∧
      ¬ (askingWith "X-Trace=given").HeadersCount out := by
  have hasked : ((serveLoaded 0 (askingWith "X-Trace=given") (shopTarget "X-Trace=given")
      [("X-Trace", "given"), ("X-Trace", "stored")] bookshop).asked shopLoaded).map (fun out =>
        (out.url, Headers.values out.headers "x-trace")) =
      [("http://localhost/books/emma", [Text.utf8Encode "stored"])] := by decide +kernel
  obtain ⟨out, hout, hsent⟩ := List.mem_map.1 (hasked ▸ List.mem_singleton_self _)
  obtain ⟨hurl, hvalues⟩ := Prod.mk.inj hsent
  have hread : readHeader "X-Trace=given" = .ok ("X-Trace", "given") :=
    Document.toOption_eq_some_iff.1 (by decide +kernel)
  have hgiven : lastValue? "x-trace" (headersIn (askingWith "X-Trace=given").headers) =
      some "given" := by decide +kernel
  refine ⟨out, mem_asked_shop hread hout, hurl, hgiven, hvalues, fun hcount => ?_⟩
  have hboth := hvalues.symm.trans (hcount _ _ hgiven)
  exact absurd (Text.utf8Encode_inj.1 (List.singleton_inj.1 hboth)) (by decide)

end ResourceCli
