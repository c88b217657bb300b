import PostfixRules.Proofs.Service.Transcript

/-!
# The service answers from what it has told

If ids are not drawn twice and time goes on, the service answers from the list of rules that its
answers have told to be created and not deleted since, and from nothing else, however many other
requests have come in between.
-/

namespace PostfixRules.Service

/-! ## Runs with fresh ids and increasing times -/

/-- Whether no id is drawn twice and every request comes later than those before it. -/
structure Orderly (exchanges : List Exchange) : Prop where
  fresh : (exchanges.map fun exchange => exchange.draws.ruleId).Nodup
  increasing : exchanges.Pairwise fun a b => a.draws.now.order b.draws.now = .lt

namespace Orderly

variable {past : List Exchange} {exchange : Exchange}

/-- The beginning of an orderly run is orderly. -/
theorem of_append {later : List Exchange} (h : Orderly (past ++ later)) : Orderly past where
  fresh := by
    have hfresh := h.fresh
    rw [List.map_append] at hfresh
    exact (List.nodup_append.mp hfresh).1
  increasing := (List.pairwise_append.mp h.increasing).1

/-- The last id was not drawn before. -/
theorem not_mem (h : Orderly (past ++ [exchange])) :
    exchange.draws.ruleId ∉ past.map fun exchange => exchange.draws.ruleId := by
  have hfresh := h.fresh
  rw [List.map_append] at hfresh
  intro hmem
  exact (List.nodup_append.mp hfresh).2.2 _ hmem _ List.mem_cons_self rfl

/-- The last request comes last. -/
theorem order_eq_lt (h : Orderly (past ++ [exchange])) {earlier : Exchange}
    (hmem : earlier ∈ past) : earlier.draws.now.order exchange.draws.now = .lt :=
  (List.pairwise_append.mp h.increasing).2.2 earlier hmem exchange List.mem_cons_self

end Orderly

/-- A store whose rules are those that the answers so far have left on the list, in its order. Every
rule has the id and the time of an exchange, and rules that were deleted are gone. -/
structure Tracks (store : Store) (past : List Exchange) (answers : List (Request × Response)) :
    Prop where
  drawn : ∀ entry ∈ store.entries, ∃ exchange ∈ past, exchange.draws.ruleId = entry.1 ∧
    exchange.draws.now = entry.2.rule.createdAt
  ordered : store.entries.Pairwise fun a b =>
    a.2.rule.createdAt.order b.2.rule.createdAt = .lt
  live_eq : live answers = store.entries.map fun entry => entry.2.rule.toJson
  gone : ∀ answer ∈ answers, ∀ id, deleted? answer.1 answer.2 = some id →
    id ∈ past.map (fun exchange => exchange.draws.ruleId) ∧ id ∉ store.entries.map Prod.fst

namespace Tracks

variable {store : Store} {past : List Exchange} {answers : List (Request × Response)}
  {exchange : Exchange} {response : Response}

theorem empty : Tracks .empty [] [] where
  drawn := by simp [Store.empty]
  ordered := List.Pairwise.nil
  live_eq := rfl
  gone := by simp

/-- The keys of the store have been drawn. -/
theorem mem_drawn (h : Tracks store past answers) {id : String}
    (hid : id ∈ store.entries.map Prod.fst) :
    id ∈ past.map fun exchange => exchange.draws.ruleId := by
  obtain ⟨entry, hentry, rfl⟩ := List.mem_map.mp hid
  obtain ⟨earlier, hearlier, heq, -⟩ := h.drawn entry hentry
  exact List.mem_map.mpr ⟨earlier, hearlier, heq⟩

/-- A rule that is created goes to the end of the store and of the list. -/
theorem created (h : Tracks store past answers) (horderly : Orderly (past ++ [exchange]))
    {rule : Rule} (hid : rule.id = exchange.draws.ruleId)
    (hnow : rule.createdAt = exchange.draws.now)
    (hcreated : created? exchange.request response = some rule.toJson)
    (hdeleted : deleted? exchange.request response = none) :
    Tracks (store.afterLoad rule) (past ++ [exchange])
      (answers ++ [(exchange.request, response)]) := by
  have hfresh : rule.id ∉ store.entries.map Prod.fst := by
    rw [hid]
    exact fun hmem => horderly.not_mem (h.mem_drawn hmem)
  have hentries : (store.afterLoad rule).entries =
      store.entries ++ [(rule.id, store.compiledNext rule)] := by
    rw [Store.entries_afterLoad, Keyed.put_of_not_mem _ hfresh]
  constructor
  case drawn =>
    intro entry hentry
    rw [hentries] at hentry
    rcases List.mem_append.mp hentry with hold | hnew
    · obtain ⟨earlier, hearlier, heq⟩ := h.drawn entry hold
      exact ⟨earlier, List.mem_append_left _ hearlier, heq⟩
    · rw [List.mem_singleton.mp hnew]
      exact ⟨exchange, List.mem_append_right _ List.mem_cons_self, hid.symm, hnow.symm⟩
  case ordered =>
    rw [hentries, List.pairwise_append]
    refine ⟨h.ordered, List.pairwise_singleton _ _, ?_⟩
    intro entry hentry new hnew
    obtain ⟨earlier, hearlier, -, heq⟩ := h.drawn entry hentry
    rw [List.mem_singleton.mp hnew, ← heq]
    change earlier.draws.now.order rule.createdAt = .lt
    rw [hnow]
    exact horderly.order_eq_lt hearlier
  case live_eq =>
    rw [live_concat_of_kept answers hdeleted, hcreated, hentries, List.map_append, h.live_eq]
    rfl
  case gone =>
    intro answer hanswer id hgone
    obtain ⟨hdrawn, hnot⟩ := h.gone answer (mem_of_deleted? hdeleted hanswer hgone) id hgone
    rw [hentries, List.map_append, List.map_append, List.mem_append, List.mem_append, not_or]
    have hnew : id ≠ rule.id := by
      rintro rfl
      rw [hid] at hdrawn
      exact horderly.not_mem hdrawn
    refine ⟨.inl hdrawn, hnot, ?_⟩
    rw [List.map_singleton, List.mem_singleton]
    exact hnew

/-- A rule that is deleted goes from the store and from the list. -/
theorem deleted (h : Tracks store past answers)
    (hkeys : ∀ entry ∈ store.entries, entry.2.rule.id = entry.1) {id : String}
    (hcontains : id ∈ store.entries.map Prod.fst)
    (hcreated : created? exchange.request response = none)
    (hdeleted : deleted? exchange.request response = some id) :
    Tracks { store with entries := Keyed.erase id store.entries } (past ++ [exchange])
      (answers ++ [(exchange.request, response)]) := by
  constructor
  case drawn =>
    intro entry hentry
    obtain ⟨earlier, hearlier, heq⟩ := h.drawn entry (List.mem_of_mem_filter hentry)
    exact ⟨earlier, List.mem_append_left _ hearlier, heq⟩
  case ordered => exact h.ordered.filter _
  case live_eq =>
    rw [live_concat, hcreated, h.live_eq, Option.toList_none, List.append_nil, List.filter_map]
    congr 1
    apply List.filter_congr
    intro entry hentry
    rw [Function.comp_apply, strikes, hdeleted, Rule.ruleId?_toJson, hkeys entry hentry]
    rfl
  case gone =>
    intro answer hanswer id' hgone
    rw [Keyed.mem_keys_erase, not_and, List.map_append, List.mem_append]
    rcases List.mem_append.mp hanswer with hold | hnew
    · obtain ⟨hdrawn, hnot⟩ := h.gone answer hold id' hgone
      exact ⟨.inl hdrawn, fun _ => hnot⟩
    · rw [List.mem_singleton.mp hnew, hdeleted] at hgone
      cases hgone
      exact ⟨.inl (h.mem_drawn hcontains), fun hne => absurd rfl hne⟩

/-- An answer that tells of neither leaves the store and the list alone. -/
theorem unchanged (h : Tracks store past answers)
    (hcreated : created? exchange.request response = none)
    (hdeleted : deleted? exchange.request response = none) :
    Tracks store (past ++ [exchange]) (answers ++ [(exchange.request, response)]) := by
  constructor
  case drawn =>
    intro entry hentry
    obtain ⟨earlier, hearlier, heq⟩ := h.drawn entry hentry
    exact ⟨earlier, List.mem_append_left _ hearlier, heq⟩
  case ordered => exact h.ordered
  case live_eq =>
    rw [live_concat_of_kept answers hdeleted, hcreated, Option.toList_none, List.append_nil]
    exact h.live_eq
  case gone =>
    intro answer hanswer id hgone
    obtain ⟨hdrawn, hnot⟩ := h.gone answer (mem_of_deleted? hdeleted hanswer hgone) id hgone
    rw [List.map_append, List.mem_append]
    exact ⟨.inl hdrawn, hnot⟩

end Tracks

/-- Every orderly run on a fresh service is tracked by its answers. -/
theorem tracks_run {exchanges : List Exchange} (h : Orderly exchanges) :
    Tracks (run .empty exchanges) exchanges (transcript .empty exchanges) := by
  induction exchanges using List.reverseRecOn with
  | nil => exact Tracks.empty
  | append_singleton past exchange ih =>
    have htracks := ih h.of_append
    obtain ⟨log, hreflects⟩ := exists_reflects_run past
    have heffect := effect_handle (run .empty past) exchange.draws exchange.request
    rw [run_concat, transcript_concat]
    generalize run .empty past = store at htracks hreflects heffect ⊢
    cases heffect with
    | created rule hrequest hid hnow hne hsound hshows hstore =>
      rw [hstore]
      exact htracks.created h hid hnow (created?_of_shows hrequest hshows)
        (deleted?_of_shows hshows (by decide))
    | deleted id hrequest hcontains hshows hstore =>
      have hcreated : created? exchange.request
          (handle store exchange.draws exchange.request).response = none := by
        refine if_neg fun h => ?_
        exact absurd (hshows.status.symm.trans h.2) (by decide)
      have hkeys (entry : String × CompiledRule) (hentry : entry ∈ store.entries) :
          entry.2.rule.id = entry.1 := (hreflects.isEntry entry hentry).id_eq
      have hcontained : id ∈ store.entries.map Prod.fst :=
        Keyed.mem_keys_iff.mpr (Option.isSome_iff_exists.mp hcontains)
      rw [hstore]
      exact htracks.deleted hkeys hcontained hcreated
        (deleted?_eq_some_iff.mpr ⟨hrequest, hshows.status⟩)
    | unchanged hcreation hdeletion hstore =>
      rw [hstore]
      exact htracks.unchanged (if_neg hcreation) (deleted?_eq_none hdeletion)

/-! ## Answers from the list -/

/-- Whether a service with a store answers questions about rules as if it had a list of their data
and nothing else. -/
structure AnswersFrom (store : Store) (rules : List Json) : Prop where
  list : ∀ draws request, request.Asks "GET" "/api/rules" →
    (handle store draws request).response.Shows (.success 200 (some (.array rules)))
  get : ∀ draws request id data, request.Names "GET" id → data ∈ rules →
    data.ruleId? = some id →
    (handle store draws request).response.Shows (.success 200 (some data))
  getOther : ∀ draws request id, request.Names "GET" id →
    (∀ data ∈ rules, data.ruleId? ≠ some id) →
    (handle store draws request).response.Shows (.failure (.ruleNotFound id))
  /-- Every rule on the list can be asked for. -/
  named : ∀ data ∈ rules, ∃ id, data.ruleId? = some id ∧ ∃ request : Request, request.Names "GET" id

/-- Rules that were created one after the other are listed in that order. -/
theorem list_of_ordered {store : Store} (h : store.entries.Pairwise fun a b =>
    a.2.rule.createdAt.order b.2.rule.createdAt = .lt) :
    store.list = store.entries.map fun entry => entry.2.rule := by
  apply List.mergeSort_of_pairwise
  rw [List.pairwise_map]
  refine h.imp ?_
  intro a b hlt
  rw [Rule.le, Rule.order, hlt]
  rfl

/-- The list has the data of the rules that are found. -/
theorem Tracks.mem_live_iff {store : Store} {past : List Exchange}
    {answers : List (Request × Response)} {log : List String} (h : Tracks store past answers)
    (hreflects : store.Reflects log) {data : Json} {id : String} :
    data ∈ live answers ∧ data.ruleId? = some id ↔
      ∃ compiled, store.get? id = some compiled ∧ compiled.rule.toJson = data := by
  rw [h.live_eq]
  constructor
  · rintro ⟨hmem, hid⟩
    obtain ⟨entry, hentry, rfl⟩ := List.mem_map.mp hmem
    have hkey := (hreflects.isEntry entry hentry).id_eq
    rw [Rule.ruleId?_toJson, Option.some.injEq, hkey] at hid
    refine ⟨entry.2, ?_, rfl⟩
    rw [← hid]
    exact (Keyed.lookup_eq_some_iff_mem hreflects.nodup_keys).mpr hentry
  · rintro ⟨compiled, hget, rfl⟩
    have hentry := (Keyed.lookup_eq_some_iff_mem hreflects.nodup_keys).mp hget
    exact ⟨List.mem_map.mpr ⟨_, hentry, rfl⟩,
      congrArg some (hreflects.isEntry_of_get? hget).id_eq⟩

/-- A tracked store answers from its list. -/
theorem Tracks.answersFrom {store : Store} {past : List Exchange}
    {answers : List (Request × Response)} {log : List String} (h : Tracks store past answers)
    (hreflects : store.Reflects log) : AnswersFrom store (live answers) := by
  constructor
  case list =>
    intro draws request hasks
    have hreading : isReading request.method = true := by
      rw [hasks.method]
      decide
    have hshows := @Request.Asks.shows request "GET" .rules hasks trivial (by decide) store draws
    rw [dispatch_list hreading, listRules, list_of_ordered h.ordered, List.map_map] at hshows
    rw [h.live_eq]
    exact hshows.response
  case get =>
    intro draws request id data hnames hmem hid
    obtain ⟨compiled, hget, rfl⟩ := (h.mem_live_iff hreflects).mp ⟨hmem, hid⟩
    have hshows := (hnames.shows_show store draws).response
    rw [showRule_eq, hget] at hshows
    exact hshows
  case getOther =>
    intro draws request id hnames hother
    have hget : store.get? id = none := by
      apply Option.eq_none_iff_forall_ne_some.mpr
      intro compiled hget
      obtain ⟨hmem, hid⟩ := (h.mem_live_iff hreflects).mpr ⟨compiled, hget, rfl⟩
      exact hother _ hmem hid
    have hshows := (hnames.shows_show store draws).response
    rw [showRule_eq, hget] at hshows
    exact hshows
  case named =>
    intro data hmem
    rw [h.live_eq] at hmem
    obtain ⟨entry, hentry, rfl⟩ := List.mem_map.mp hmem
    have hcompiled := hreflects.isEntry entry hentry
    have hne : entry.2.rule.id ≠ "" := by
      rw [hcompiled.id_eq]
      exact hcompiled.id_ne_empty
    exact ⟨entry.2.rule.id, rfl, Request.exists_names "GET" hne⟩

/-- Whether a request has changed the store as its answer tells: a rule that is told to be created
has been added under its id and nowhere else, a rule that is told to be deleted has been taken out
and no other, and after any other answer the store is the same as before. -/
structure ChangesAsTold (store : Store) (request : Request) (outcome : Outcome) : Prop where
  created : request.Asks "POST" "/api/rules" → outcome.response.status = 201 →
    ∃ compiled, outcome.response.body.member? "data" = some compiled.rule.toJson ∧
      store.get? compiled.rule.id = none ∧
      ∀ id, outcome.store.get? id = if id = compiled.rule.id then some compiled else store.get? id
  deleted : ∀ id, request.Names "DELETE" id → outcome.response.status = 200 →
    (∃ compiled, store.get? id = some compiled) ∧
      ∀ other, outcome.store.get? other = if other = id then none else store.get? other
  unchanged : ¬ (request.Asks "POST" "/api/rules" ∧ outcome.response.status = 201) →
    (∀ id, ¬ (request.Names "DELETE" id ∧ outcome.response.status = 200)) → outcome.store = store

/-- If the id that is drawn is not in use, a request changes the store as told. -/
theorem Effect.changesAsTold {store : Store} {draws : Draws} {request : Request}
    {outcome : Outcome} (h : Effect store draws request outcome)
    (hfresh : draws.ruleId ∉ store.entries.map Prod.fst) :
    ChangesAsTold store request outcome := by
  cases h with
  | created rule hrequest hid hnow hne hsound hshows hstore =>
    have hdata : outcome.response.body.member? "data" = some rule.toJson := by
      rw [hshows.body]
      rfl
    constructor
    case created =>
      intro _ _
      refine ⟨store.compiledNext rule, hdata, ?_, ?_⟩
      · rw [← hid, Keyed.mem_keys_iff, not_exists] at hfresh
        exact Option.eq_none_iff_forall_ne_some.mpr hfresh
      · rw [hstore]
        exact store.get?_afterLoad_eq_ite rule
    case deleted =>
      rintro id ⟨segment, hasks, -⟩
      exact absurd (hasks.method.symm.trans hrequest.method) (by decide)
    case unchanged => exact fun hother => absurd ⟨hrequest, hshows.status⟩ hother
  | deleted id hrequest hcontains hshows hstore =>
    constructor
    case created =>
      intro _ hstatus
      exact absurd (hshows.status.symm.trans hstatus) (by decide)
    case deleted =>
      intro other hother _
      have honly : some other = some id := (Request.deletedId?_eq_some_iff.mpr hother).symm.trans
        (Request.deletedId?_eq_some_iff.mpr hrequest)
      obtain rfl := Option.some.inj honly
      refine ⟨Option.isSome_iff_exists.mp hcontains, fun other => ?_⟩
      rw [hstore, Store.get?, Keyed.lookup_erase, Store.get?]
    case unchanged => exact fun _ hother => absurd ⟨hrequest, hshows.status⟩ (hother id)
  | unchanged hcreation hdeletion hstore =>
    constructor
    case created => exact fun hrequest hstatus => absurd ⟨hrequest, hstatus⟩ hcreation
    case deleted => exact fun id hrequest hstatus => absurd ⟨hrequest, hstatus⟩ (hdeletion id)
    case unchanged => exact fun _ _ => hstore

/-- In every run on a fresh service in which ids are not drawn twice and time goes on, each request
changes the store as its answer tells and not otherwise. After the run, questions about rules are
answered from the list of those that were told to be created and not to be deleted since, with the
data and in the order of their creation, and a rule that was told to be deleted is not found to be
deleted again. -/
theorem run_answers_from_live {exchanges : List Exchange} (h : Orderly exchanges) :
    (∀ before exchange after, exchanges = before ++ exchange :: after →
      ChangesAsTold (run .empty before) exchange.request
        (handle (run .empty before) exchange.draws exchange.request)) ∧
    AnswersFrom (run .empty exchanges) (live (transcript .empty exchanges)) ∧
    ∀ answer ∈ transcript .empty exchanges, ∀ id, answer.1.Names "DELETE" id →
      answer.2.status = 200 → ∀ draws request, request.Names "DELETE" id →
        (handle (run .empty exchanges) draws request).response.Shows
          (.failure (.ruleNotFound id)) := by
  refine ⟨?_, ?_, ?_⟩
  · rintro before exchange after rfl
    rw [List.append_cons] at h
    have htracks := tracks_run h.of_append.of_append
    exact (effect_handle _ exchange.draws exchange.request).changesAsTold
      fun hmem => h.of_append.not_mem (htracks.mem_drawn hmem)
  · obtain ⟨log, hreflects⟩ := exists_reflects_run exchanges
    exact (tracks_run h).answersFrom hreflects
  · intro answer hanswer id hdeletion hstatus draws request hrequest
    have hgone := ((tracks_run h).gone answer hanswer id
      (deleted?_eq_some_iff.mpr ⟨hdeletion, hstatus⟩)).2
    have hcontains : ¬ (run .empty exchanges).contains id = true := by
      intro hcontains
      exact hgone (Keyed.mem_keys_iff.mpr (Option.isSome_iff_exists.mp hcontains))
    have hshows := (hrequest.shows_delete (run .empty exchanges) draws).response
    rw [deleteRule_eq, if_neg hcontains] at hshows
    exact hshows

/-- The exchange of a request at a second of time, with an id of a rule. -/
def exchangeAt (second : Int) (id : String) (request : Request) : Exchange :=
  ⟨⟨id, "request", .ofSeconds second, .ofNat 0, 0, .ofNat 0⟩, request⟩

/-- Two rules are created with a refused text between them, and the first one is deleted: the second
one is left on the list, and the first one is not found any more. -/
theorem run_answers_from_live_two : ∃ exchanges, Orderly exchanges ∧
    (transcript .empty exchanges).map
      (fun answer => (answer.2.status, deleted? answer.1 answer.2)) =
        [(201, none), (400, none), (201, none), (200, some "first")] ∧
    (live (transcript .empty exchanges)).map Json.ruleId? = [some "second"] ∧
    AnswersFrom (run .empty exchanges) (live (transcript .empty exchanges)) ∧
    ∀ draws request, request.Names "DELETE" "first" →
      (handle (run .empty exchanges) draws request).response.Shows
        (.failure (.ruleNotFound "first")) := by
  obtain ⟨exchanges, hexchanges⟩ : ∃ exchanges, exchanges =
      [exchangeAt 0 "first" (.post "/api/rules" (CreatePayload.toJson ⟨"Adults", "", "age 18 >="⟩)),
        exchangeAt 1 "refused" (.post "/api/rules" (CreatePayload.toJson ⟨"None", "", "age 18"⟩)),
        exchangeAt 2 "second"
          (.post "/api/rules" (CreatePayload.toJson ⟨"Clerks", "", "role clerk ="⟩)),
        exchangeAt 3 "unused" ⟨"DELETE", "/api/rules/first", none, none, ""⟩] := ⟨_, rfl⟩
  have horderly : Orderly exchanges := by
    rw [hexchanges]
    exact ⟨by decide, by decide +kernel⟩
  have htold : (transcript .empty exchanges).map
      (fun answer => (answer.2.status, deleted? answer.1 answer.2)) =
        [(201, none), (400, none), (201, none), (200, some "first")] := by
    rw [hexchanges]
    decide +kernel
  have hlive : (live (transcript .empty exchanges)).map Json.ruleId? = [some "second"] := by
    rw [hexchanges]
    decide +kernel
  have hlast : (200, some "first") ∈ (transcript .empty exchanges).map
      (fun answer => (answer.2.status, deleted? answer.1 answer.2)) := by
    rw [htold]
    decide
  obtain ⟨answer, hanswer, heq⟩ := List.mem_map.mp hlast
  obtain ⟨hrequest, hstatus⟩ := deleted?_eq_some_iff.mp (Prod.mk.inj heq).2
  obtain ⟨-, hanswers, hrepeated⟩ := run_answers_from_live horderly
  exact ⟨exchanges, horderly, htold, hlive, hanswers,
    hrepeated answer hanswer "first" hrequest hstatus⟩

end PostfixRules.Service
