import ResourceCli.Program.Target
import ResourceCli.Proofs.Exchange.Sent

/-!
# What sends nothing

Most of what a run does sends nothing, whatever the surroundings answer: finding an alias and the
target of a command line, finding the resources of a document, getting ready for exchanges, and
making a request out of words.  Loading a document sends nothing but the request for it
(`loadDocument_sendsOnly`).
-/

namespace ResourceCli

section Silent

variable {P : Outgoing → Prop}

theorem AliasStore.find?_sendsOnly (store : AliasStore) (name : String) :
    (store.find? name).SendsOnly P := by
  unfold find?
  rw [map_eq_pure_bind]
  refine Job.SendsOnly.bind ?_ fun _ => Job.SendsOnly.pure _
  unfold load
  refine (Job.SendsOnly.has _).bind fun there => ?_
  split
  · refine (Job.SendsOnly.readText _ _).bind fun text => ?_
    split
    · exact Job.SendsOnly.pure _
    · exact Job.SendsOnly.fail _
  · exact (Job.SendsOnly.note _).bind fun _ => Job.SendsOnly.pure _

theorem AliasStore.targetOf_sendsOnly (store : AliasStore) (o : Options) :
    (store.targetOf o).SendsOnly P := by
  unfold targetOf
  refine (store.find?_sendsOnly o.target).bind fun found => ?_
  cases found with
  | none => exact Job.SendsOnly.pure _
  | some a => exact (Job.SendsOnly.note _).bind fun _ => Job.SendsOnly.pure _

theorem findResources_sendsOnly (doc : Document) (serverUrl : Option String) (start : String) :
    (findResources doc serverUrl start).SendsOnly P :=
  (Job.SendsOnly.notes _).bind fun _ => Job.SendsOnly.ofExcept _

theorem checkCertificate_sendsOnly (path : String) : (checkCertificate path).SendsOnly P := by
  unfold checkCertificate
  refine (Job.SendsOnly.note _).bind fun _ => (Job.SendsOnly.readBytes _ _).bind fun bytes => ?_
  have hmarked : (if (Text.lines (Text.utf8Lossy bytes)).any fun line =>
      (Text.stripStart certificateMark line).isSome then
        Job.fail (.requestFailed .certificatesUnusable) else pure () : Job Unit).SendsOnly P := by
    split
    · exact Job.SendsOnly.fail _
    · exact Job.SendsOnly.pure _
  dsimp only
  split
  · exact (Job.SendsOnly.fail _).bind fun _ => hmarked
  · exact hmarked

theorem prepareExchange_sendsOnly (s : ExchangeSettings) : (prepareExchange s).SendsOnly P := by
  unfold prepareExchange
  split
  · exact Job.SendsOnly.note _
  · dsimp only
    split
    · exact (checkCertificate_sendsOnly _).bind fun _ => Job.SendsOnly.notes _
    · exact (Job.SendsOnly.note _).bind fun _ => Job.SendsOnly.notes _

theorem Resource.compile_sendsOnly (r : Resource) (words : List String) :
    (r.compile words).SendsOnly P := by
  unfold compile
  refine (Job.SendsOnly.notes _).bind fun _ => (Job.SendsOnly.ofExcept _).bind fun command => ?_
  split
  · refine Job.SendsOnly.bind ?_ fun call => ?_
    · unfold readCall
      refine (Job.SendsOnly.ofExcept _).bind fun x => (Job.SendsOnly.notes _).bind fun _ => ?_
      split
      · exact Job.SendsOnly.pure _
      · refine Job.SendsOnly.bind ?_ fun _ => Job.SendsOnly.pure _
        unfold readData
        split
        · exact Job.SendsOnly.fail _
        · refine (Job.SendsOnly.readText _ _).bind fun text => ?_
          split
          · exact Job.SendsOnly.pure _
          · exact Job.SendsOnly.fail _
          · exact Job.SendsOnly.fail _
    · refine Job.SendsOnly.bind ?_ fun _ => Job.SendsOnly.pure _
      unfold compileCall
      refine (Job.SendsOnly.note _).bind fun _ => ?_
      dsimp only
      split
      · exact (Job.SendsOnly.notes _).bind fun _ => Job.SendsOnly.ofExcept _
      · exact Job.SendsOnly.ofExcept _
  · exact Job.SendsOnly.fail _
  · exact Job.SendsOnly.pure _

end Silent

/-- Loading a document asks for nothing but the document itself. -/
theorem loadDocument_sendsOnly (certificates : Nat) (location : String) :
    (loadDocument certificates location).SendsOnly fun o =>
      ∃ u, Url.read location = some u ∧ o = ⟨"GET", u.withoutCredentials.text, [], none⟩ := by
  unfold loadDocument
  refine Job.SendsOnly.bind ?_ fun text => Job.SendsOnly.ofExcept _
  unfold loadText
  split
  · unfold fetchText
    refine (Job.SendsOnly.note _).bind fun _ => (Job.SendsOnly.notes _).bind fun _ => ?_
    cases hurl : Url.read location with
    | none => exact Job.SendsOnly.fail _
    | some u =>
      refine Job.SendsOnly.bind ((sendTo_sendsOnly u "GET" [] none).imp fun o ho => ⟨u, rfl, ho⟩)
        fun answer => ?_
      cases answer with
      | error fault => exact Job.SendsOnly.fail _
      | ok reply => exact Job.SendsOnly.ofExcept _
  · exact (Job.SendsOnly.note _).bind fun _ => Job.SendsOnly.readText _ _

end ResourceCli
