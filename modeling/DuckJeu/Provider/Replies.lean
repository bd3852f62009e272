import DuckJeu.Provider.Service

/-!
# Services which reply

A service replies to a body if its response has the format of the protocol and
has a judgment for every question of the body.  In front of such a service the
adapter brings back exactly the judgments of the requests which it was given,
in their order.
-/

namespace DuckJeu

open Effects Json

/-! ## Replies -/

/-- The question admits this result. -/
def WireQuestion.Admits (asked : WireQuestion) : JudgmentResult → Prop
  | .noul p => asked.kind = .noul ∧ p.isFinite = true ∧
      F64.le .zero p = true ∧ F64.le p .one = true
  | .choice label => asked.kind = .choice ∧ ∃ members : Members Wire,
      asked.criteria = some (.object members) ∧ label ∈ members.names

namespace TypesafeProvider

/-- The response is one of the service to this body: it answers the questions
of the body and nothing else. -/
structure Replies (J : WireJudge) (body tree : Wire) : Prop where
  distinct : tree.DistinctNames
  answered : ∃ answers, HasAnswers tree answers ∧
    (∀ key ∈ answers.names, ∃ asked, Poses body key asked) ∧
    ∀ key asked, Poses body key asked → asked.Admits (J asked) ∧
      ∃ members value, (key, .object members) ∈ answers ∧
        ("type", .string (typeName asked.kind)) ∈ members ∧
        (typeName asked.kind, value) ∈ members ∧
        Reads asked.kind value (J asked)

theorem reads_unique {kind : QuestionKind} {value : Wire}
    {result result' : JudgmentResult} (h : Reads kind value result)
    (h' : Reads kind value result') : result = result' := by
  cases kind with
  | noul =>
      obtain ⟨number, rfl, rfl⟩ := h
      obtain ⟨number', hnumber, rfl⟩ := h'
      rw [Value.number.inj hnumber]
  | choice =>
      obtain ⟨label, rfl, rfl⟩ := h
      obtain ⟨label', hlabel, rfl⟩ := h'
      rw [Value.string.inj hlabel]

/-- Members of distinct names are determined by their names. -/
theorem member_unique {members : Members Wire} (hnodup : members.names.Nodup)
    {name : String} {value value' : Wire} (h : (name, value) ∈ members)
    (h' : (name, value') ∈ members) : value = value' := by
  have hsame := List.inj_on_of_nodup_map hnodup h h' rfl
  exact (Prod.mk.inj hsame).2

section Replies

variable {p : TypesafeProvider} {J : WireJudge} {body tree : Wire}
  {requests : List JudgmentRequest}

/-- Whatever a reply says about a question is its value. -/
theorem Replies.judged (h : Replies J body tree) : Judged J body tree := by
  rintro key asked result hposes
    ⟨answers, members, value, hanswers, hmem, -, hvalue, hreads⟩
  obtain ⟨answers', hanswers', -, hall⟩ := h.answered
  obtain ⟨-, members', value', hmem', -, hvalue', hreads'⟩ :=
    hall key asked hposes
  have hlast := (hasAnswers_iff h.distinct).mp hanswers
  have hlast' := (hasAnswers_iff h.distinct).mp hanswers'
  obtain rfl := Value.object.inj (Option.some.inj (hlast.symm.trans hlast'))
  obtain ⟨hnodup, hdistinct⟩ := hanswers.distinct h.distinct
  obtain rfl := Value.object.inj (member_unique hnodup hmem hmem')
  obtain ⟨hnames, -⟩ := Value.distinctNames_object.mp (hdistinct _ hmem)
  obtain rfl := member_unique hnames hvalue hvalue'
  exact reads_unique hreads hreads'

theorem exists_of_mem_questionEntries {row : ℕ} {key : String} {value : Wire}
    (h : (key, value) ∈ questionEntries row requests) :
    ∃ request ∈ requests, ∃ n, request.requestKey = key ∧
      value = object (questionMembers request n) := by
  induction requests generalizing row with
  | nil => cases h
  | cons request rest ih =>
      rw [questionEntries] at h
      rcases List.mem_cons.mp h with hfirst | hrest
      · obtain ⟨rfl, rfl⟩ := Prod.mk.inj hfirst
        exact ⟨request, List.mem_cons_self .., row, rfl, rfl⟩
      · obtain ⟨other, hother, n, hkey, hvalue⟩ := ih hrest
        exact ⟨other, List.mem_cons_of_mem _ hother, n, hkey, hvalue⟩

/-- A body poses questions under the keys of its requests only, of their
kinds. -/
theorem posed_request (hbody : p.buildBatchBody requests = .ok body)
    {key : String} {asked : WireQuestion} (hposes : Poses body key asked) :
    ∃ request ∈ requests, request.requestKey = key ∧
      request.kind = asked.kind := by
  obtain ⟨-, first, rfl, -⟩ := buildBatchBody_composite hbody
  obtain ⟨question, row, rows, hquestion, htype, -⟩ := hposes.question
  have hquestions : (p.compositeBody first requests).get "questions" =
      some (object (questionEntries 0 requests)) := by
    simp [compositeBody, get_object, Members.get?_cons]
  rw [hquestions, Option.bind_some, get_object] at hquestion
  obtain ⟨request, hrequest, n, hkey, rfl⟩ := exists_of_mem_questionEntries
    (List.mem_reverse.mp (Members.get?_mem hquestion))
  refine ⟨request, hrequest, hkey, ?_⟩
  have hname : typeName request.kind = typeName asked.kind := by
    simpa [get_object, questionMembers, Members.get?_cons] using htype
  cases hkind : request.kind with
  | noul =>
      cases hasked : asked.kind with
      | noul => rfl
      | choice => simp [hkind, hasked, typeName] at hname
  | choice =>
      cases hasked : asked.kind with
      | noul => simp [hkind, hasked, typeName] at hname
      | choice => rfl

/-- What the question of a request admits is in the domain of the request. -/
theorem inDomain_of_admits {request : JudgmentRequest}
    {result : JudgmentResult} (h : (p.questionOf request).Admits result) :
    request.InDomain result := by
  cases result with
  | noul probability => exact h
  | choice label =>
      obtain ⟨hkind, members, hcriteria, hlabel⟩ := h
      have hrequest : request.kind = .choice := hkind
      refine ⟨hrequest, ?_⟩
      unfold questionOf at hcriteria
      dsimp only at hcriteria
      rw [hrequest] at hcriteria
      obtain rfl := Value.object.inj (Option.some.inj hcriteria)
      rw [Members.mem_names_ofEntries] at hlabel
      simpa [Members.names, Function.comp_def] using hlabel

/-- A reply has the format which the adapter asks for. -/
theorem Replies.wellAnswered (h : Replies J body tree)
    (hbody : p.buildBatchBody requests = .ok body) :
    WellAnswered requests tree := by
  obtain ⟨hkeys, hposes⟩ := buildBatchBody_poses hbody
  obtain ⟨answers, hanswers, hposed, hall⟩ := h.answered
  obtain ⟨hnodup, -⟩ := hanswers.distinct h.distinct
  refine ⟨answers, hanswers,
    (List.perm_ext_iff_of_nodup hnodup hkeys).mpr fun key => ⟨?_, ?_⟩, ?_⟩
  · intro hkey
    obtain ⟨asked, hasked⟩ := hposed key hkey
    obtain ⟨request, hrequest, hsame, -⟩ := posed_request hbody hasked
    exact List.mem_map.mpr ⟨request, hrequest, hsame⟩
  · intro hkey
    obtain ⟨request, hrequest, rfl⟩ := List.mem_map.mp hkey
    obtain ⟨-, members, value, hmem, -⟩ := hall _ _ (hposes request hrequest)
    exact List.mem_map_of_mem hmem
  · intro request hrequest
    obtain ⟨hadmits, members, value, hmem, htype, hvalue, hreads⟩ :=
      hall _ _ (hposes request hrequest)
    exact ⟨_, _, hmem, members, value, rfl, htype, hvalue, hreads,
      inDomain_of_admits hadmits⟩

/-- The judgments of the requests under their keys. -/
def answersOf (p : TypesafeProvider) (J : WireJudge)
    (requests : List JudgmentRequest) : List ProviderAnswer :=
  requests.map fun request => ⟨request.requestKey, J (p.questionOf request)⟩

/-- Building, replying and parsing give back the judgments of the requests. -/
theorem Replies.parsed (h : Replies J body tree)
    (hbody : p.buildBatchBody requests = .ok body) :
    ∃ response, p.parseBatchResponse requests (some tree) = .ok response ∧
      response.answers = p.answersOf J requests := by
  obtain ⟨hkeys, -⟩ := buildBatchBody_poses hbody
  have hfits := (lastAnswersFit_iff hkeys h.distinct).mpr (h.wellAnswered hbody)
  obtain ⟨response, hresponse⟩ :=
    (p.parseBatchResponse_ok_iff requests tree).mpr hfits
  refine ⟨response, hresponse, ?_⟩
  obtain ⟨answers, -, -, -, hparsed, -⟩ := parseBatchResponse_ok hresponse
  have hloop := parseAnswers_forall₂ hparsed
  refine List.ext_getElem ?_ fun n hn hn' => ?_
  · rw [answersOf, List.length_map, hloop.length_eq]
  · have hlength : n < requests.length := hloop.length_eq.symm ▸ hn
    obtain ⟨hkey, -⟩ := hloop.get hlength hn
    have hvalue := h.judged.parsed hbody hresponse
      (List.getElem_mem hlength) (List.getElem_mem hn) hkey
    simp only [answersOf, List.getElem_map]
    rw [← hvalue, show requests[n].requestKey =
      response.answers[n].requestKey from hkey.symm]

end Replies

end TypesafeProvider

/-! ## Adapters in front of a service -/

/-- The calls of the provider are those of this adapter. -/
structure HttpProvider.Fronts (toVec : Wire → Option (List UInt8))
    (a : TypesafeAdapter) (http : HttpProvider) : Prop where
  many : http.judgeMany = a.judgeMany toVec
  single : http.judgeWithMetadata = a.judgeWithMetadata toVec

theorem TypesafeAdapter.fronts (toVec : Wire → Option (List UInt8))
    (a : TypesafeAdapter) : (a.httpProvider toVec).Fronts toVec a := ⟨rfl, rfl⟩

theorem LocalJevProvider.fronts (toVec : Wire → Option (List UInt8))
    (p : LocalJevProvider) : (p.httpProvider toVec).Fronts toVec p.inner :=
  ⟨rfl, rfl⟩

namespace TypesafeAdapter

/-- The adapter can send these requests: they have a body which can be
serialized, and are within its capabilities. -/
structure Sends (toVec : Wire → Option (List UInt8)) (a : TypesafeAdapter)
    (requests : List JudgmentRequest) : Prop where
  body : ∃ body bytes, a.buildBatchBody requests = .ok body ∧
    toVec body = some bytes
  verified : 1 < requests.length → a.multiStateBatch = .verified
  capable : ∀ request ∈ requests, a.checkRequestCapabilities request = .ok ()

/-- Whatever was sent for these requests, the service has replied to it. -/
def RepliedIn (toVec : Wire → Option (List UInt8)) (a : TypesafeAdapter)
    (J : WireJudge) (requests : List JudgmentRequest)
    (h : List (Event HttpOp HttpRes)) : Prop :=
  ∀ body bytes r, a.buildBatchBody requests = .ok body →
    toVec body = some bytes →
    (⟨.send bytes, r⟩ : Event HttpOp HttpRes) ∈ h →
    ∃ response tree, r = .ok response ∧ a.Trusts requests response tree ∧
      TypesafeProvider.Replies J body tree

section Replied

variable {toVec : Wire → Option (List UInt8)} {a : TypesafeAdapter}
  {J : WireJudge} {requests : List JudgmentRequest}

theorem RepliedIn.judgedIn {h : List (Event HttpOp HttpRes)}
    (hreplied : a.RepliedIn toVec J requests h) :
    a.JudgedIn toVec J requests h := by
  intro body bytes response tree hbody hbytes hsent htrusts
  obtain ⟨response', tree', hsame, htrusts', hreplies⟩ :=
    hreplied body bytes _ hbody hbytes hsent
  obtain rfl := Except.ok.inj hsame
  have htree := Except.ok.inj (htrusts.body.symm.trans htrusts'.body)
  rw [Option.some.inj htree]
  exact hreplies.judged

/-- A reply is not missed. -/
theorem Missed.not_replied {h : List (Event HttpOp HttpRes)}
    (hmissed : a.Missed toVec requests h) {body : Wire} {bytes : List UInt8}
    (hbody : a.buildBatchBody requests = .ok body)
    (hbytes : toVec body = some bytes) : ¬ a.RepliedIn toVec J requests h := by
  intro hreplied
  obtain ⟨r, hsent, hnone⟩ := hmissed body bytes hbody hbytes
  obtain ⟨response, tree, rfl, htrusts, hreplies⟩ :=
    hreplied body bytes r hbody hbytes hsent
  obtain ⟨parsed, hparsed, -⟩ := hreplies.parsed hbody
  exact hnone ⟨response, tree, parsed, rfl, htrusts, hparsed⟩

theorem postSingle_unfailing {judgment : JudgmentRequest}
    (hsends : a.Sends toVec [judgment]) :
    Secures receipts (a.postSingle toVec judgment)
      (a.Received toVec [judgment])
      (fun _ h => ¬ a.RepliedIn toVec J [judgment] h) [] := by
  obtain ⟨body, bytes, hbody, hbytes⟩ := hsends.body
  have hsame : a.buildBody judgment = body := Except.ok.inj hbody
  unfold postSingle
  rw [hsends.capable judgment (List.mem_singleton_self _), hsame]
  dsimp only
  rw [secures_bind, secures_lift, follows_perform]
  exact ⟨trivial, fun started _ => (a.postBody_received toVec hbody _).mono
    (fun _ _ hreceived => hreceived)
    fun _ _ hmissed => hmissed.not_replied hbody hbytes⟩

theorem judgeMany_unfailing (hsends : a.Sends toVec requests) :
    Secures receipts (a.judgeMany toVec requests) (a.Received toVec requests)
      (fun _ h => ¬ a.RepliedIn toVec J requests h) [] := by
  obtain ⟨body, bytes, hbody, hbytes⟩ := hsends.body
  unfold judgeMany
  split
  · exact postSingle_unfailing hsends
  rename_i hseveral
  have hlength : 1 < requests.length := by
    rcases requests with _ | ⟨first, _ | ⟨second, rest⟩⟩
    · cases hbody
    · exact absurd rfl (hseveral first)
    · simp
  rw [hsends.verified hlength, hbody]
  dsimp only
  rw [secures_bind, secures_lift, follows_perform]
  exact ⟨trivial, fun started _ => (a.postBody_received toVec hbody _).mono
    (fun _ _ hreceived => hreceived)
    fun _ _ hmissed => hmissed.not_replied hbody hbytes⟩

/-- The answers of what was received are the judgments of the requests. -/
theorem Received.replied {result : ProviderBatchResult}
    {h : List (Event HttpOp HttpRes)}
    (hreceived : a.Received toVec requests result h)
    (hreplied : a.RepliedIn toVec J requests h) :
    result.answers = a.answersOf J requests ∧
      validateBatchResult requests result = .ok () := by
  obtain ⟨body, bytes, response, tree, parsed, hbody, hbytes, hsent, htrusts,
    hparsed, hanswers⟩ := hreceived
  obtain ⟨response', tree', hsame, htrusts', hreplies⟩ :=
    hreplied body bytes _ hbody hbytes hsent
  obtain rfl := Except.ok.inj hsame
  have htree := Except.ok.inj (htrusts.body.symm.trans htrusts'.body)
  obtain rfl := Option.some.inj htree
  obtain ⟨parsed', hparsed', hvalues⟩ := hreplies.parsed hbody
  obtain rfl := Except.ok.inj (hparsed.symm.trans hparsed')
  obtain ⟨answers, -, -, -, -, hvalid⟩ :=
    TypesafeProvider.parseBatchResponse_ok hparsed
  refine ⟨hanswers.trans hvalues, ?_⟩
  unfold validateBatchResult at hvalid ⊢
  rwa [hanswers]

/-- A call which ends in front of a replying service does not fail. -/
theorem replied_of_after {x : Post ProviderBatchResult}
    {h : List (Event HttpOp HttpRes)}
    {outcome : Except JudgmentError ProviderBatchResult}
    (hx : Secures receipts x (a.Received toVec requests)
      (fun _ h => ¬ a.RepliedIn toVec J requests h) [])
    (hafter : x.run.After h (.ret outcome))
    (hreplied : a.RepliedIn toVec J requests h) :
    ∃ response, outcome = .ok response ∧
      response.answers = a.answersOf J requests ∧
      validateBatchResult requests response = .ok () := by
  have hend := secured_of_after hx hafter
  cases outcome with
  | ok response =>
      have hreceived : a.Received toVec requests response h := hend
      exact ⟨response, rfl, hreceived.replied hreplied⟩
  | error error => exact absurd hreplied hend

end Replied

end TypesafeAdapter

/-- Whatever call ends in front of a replying service has the judgments of its
requests. -/
theorem HttpProvider.Fronts.replied {toVec : Wire → Option (List UInt8)}
    {a : TypesafeAdapter} {http : HttpProvider} (hfronts : http.Fronts toVec a)
    {J : WireJudge} {requests : List JudgmentRequest}
    (hsends : a.Sends toVec requests) {method : ProviderCall}
    {post : Post ProviderBatchResult}
    (hcall : http.call method requests = some post)
    {h : List (Event HttpOp HttpRes)}
    {outcome : Except JudgmentError ProviderBatchResult}
    (hafter : post.run.After h (.ret outcome))
    (hreplied : a.RepliedIn toVec J requests h) :
    ∃ response, outcome = .ok response ∧
      response.answers = a.answersOf J requests ∧
      validateBatchResult requests response = .ok () := by
  cases method with
  | judgeMany =>
      obtain rfl := Option.some.inj hcall
      rw [hfronts.many] at hafter
      exact TypesafeAdapter.replied_of_after
        (TypesafeAdapter.judgeMany_unfailing hsends) hafter hreplied
  | judgeWithMetadata =>
      unfold HttpProvider.call at hcall
      split at hcall
      · rename_i hmethod
        cases hmethod
      · obtain rfl := Option.some.inj hcall
        rw [hfronts.single] at hafter
        exact TypesafeAdapter.replied_of_after
          (TypesafeAdapter.postSingle_unfailing hsends) hafter hreplied
      · cases hcall

/-- Requests from the constructors which share one question make the round
trip through an adapter: whichever way they are sent, a call which ends in
front of a replying service brings back exactly their judgments, in their
order, and the executor accepts them. -/
theorem adapter_round_trip {toVec : Wire → Option (List UInt8)}
    {a : TypesafeAdapter} {http : HttpProvider} (hfronts : http.Fronts toVec a)
    {J : WireJudge} {first : JudgmentRequest} {rest : List JudgmentRequest}
    (hbuilt : ∀ request ∈ first :: rest, Built request)
    (hkeys : ((first :: rest).map JudgmentRequest.requestKey).Nodup)
    (hcompatible : ∀ request ∈ first :: rest,
      TypesafeProvider.Compatible request first)
    (hadmits : ∀ request ∈ first :: rest, a.Admits request)
    (hverified : rest ≠ [] → a.multiStateBatch = .verified)
    (hserialized : ∀ body, a.buildBatchBody (first :: rest) = .ok body →
      (toVec body).isSome) {method : ProviderCall}
    {post : Post ProviderBatchResult}
    (hcall : http.call method (first :: rest) = some post)
    {h : List (Event HttpOp HttpRes)}
    {outcome : Except JudgmentError ProviderBatchResult}
    (hafter : post.run.After h (.ret outcome))
    (hreplied : a.RepliedIn toVec J (first :: rest) h) :
    ∃ response, outcome = .ok response ∧
      response.answers = a.answersOf J (first :: rest) ∧
      validateBatchResult (first :: rest) response = .ok () := by
  have hbody := TypesafeProvider.buildBatchBody_eq_compositeBody hbuilt hkeys
    hcompatible hadmits
  obtain ⟨bytes, hbytes⟩ := Option.isSome_iff_exists.mp (hserialized _ hbody)
  refine hfronts.replied ⟨⟨_, bytes, hbody, hbytes⟩, ?_, ?_⟩ hcall hafter
    hreplied
  · intro hseveral
    refine hverified ?_
    rintro rfl
    exact absurd hseveral (by simp)
  · intro request hrequest
    exact TypesafeProvider.checkRequestCapabilities_eq
      (hadmits request hrequest)

/-! ## Even odds -/

/-- A service which says of everything that it holds with even odds. -/
def evenWire : WireJudge := fun _ => .noul .half

/-- Its response to a body of these requests. -/
def evenAnswers (requests : List JudgmentRequest) : Wire :=
  .object [("model", .string verifiedBatchEffectiveModel),
    ("answers", .object (requests.map fun request =>
      (request.requestKey, TypesafeProvider.noulAnswer .half)))]

/-- The agent brings this response, and the clock stands. -/
def replyingAgent (requests : List JudgmentRequest) (_ : Unit) :
    (op : HttpOp) → Option (HttpRes op × Unit)
  | .send _ => some (.ok ⟨200, none, .ok (some (evenAnswers requests))⟩, ())
  | .now => some (0, ())

section Even

variable {requests : List JudgmentRequest}
  (hnoul : ∀ request ∈ requests, request.kind = .noul)

include hnoul

theorem evenAnswers_replies {p : TypesafeProvider} {body : Wire}
    (hbody : p.buildBatchBody requests = .ok body) :
    TypesafeProvider.Replies evenWire body (evenAnswers requests) := by
  obtain ⟨hkeys, hposes⟩ := TypesafeProvider.buildBatchBody_poses hbody
  have hanswer : (TypesafeProvider.noulAnswer .half).DistinctNames := by
    simp [TypesafeProvider.noulAnswer, Value.distinctNames_object,
      Members.names, Value.DistinctNames.string, Value.DistinctNames.number]
  have hnames : Members.names (requests.map fun request =>
      (request.requestKey, TypesafeProvider.noulAnswer .half)) =
        requests.map JudgmentRequest.requestKey := by
    simp [Members.names, Function.comp_def]
  refine ⟨?_, _, ⟨_, rfl, .tail _ (.head _)⟩, ?_, ?_⟩
  · refine .object (by simp [Members.names]) fun member hmember => ?_
    rcases List.mem_pair.mp hmember with rfl | rfl
    · exact .string _
    · refine .object (hnames ▸ hkeys) fun answer hmem => ?_
      obtain ⟨request, -, rfl⟩ := List.mem_map.mp hmem
      exact hanswer
  · intro key hkey
    rw [hnames] at hkey
    obtain ⟨request, hrequest, rfl⟩ := List.mem_map.mp hkey
    exact ⟨_, hposes request hrequest⟩
  · intro key asked hasked
    obtain ⟨request, hrequest, rfl, hkind⟩ :=
      TypesafeProvider.posed_request hbody hasked
    rw [hnoul request hrequest] at hkind
    refine ⟨⟨hkind.symm, by decide⟩, [("type", .string "noul"),
      ("noul", .number (.float .half))], .number (.float .half),
      List.mem_map.mpr ⟨request, hrequest, rfl⟩, ?_⟩
    rw [← hkind]
    exact ⟨.head _, .tail _ (.head _), _, rfl, rfl⟩

/-- The service has replied to whatever the agent was given to send. -/
theorem replyingAgent_replied {α : Type} {toVec : Wire → Option (List UInt8)}
    {a : TypesafeAdapter} {program : Prog HttpOp HttpRes α} {outcome : α}
    {h : List (Event HttpOp HttpRes)} {s s' : Unit}
    (hrun : program.run (replyingAgent requests) s = some (outcome, s', h)) :
    a.RepliedIn toVec evenWire requests h := by
  intro body bytes r hbody hbytes hsent
  obtain ⟨before, after, hhandled⟩ := Prog.run_handled hrun _ hsent
  obtain ⟨rfl, -⟩ := Prod.mk.inj (Option.some.inj hhandled)
  have hsuccess : 200 ≤ 200 ∧ 200 < 300 := by decide
  refine ⟨_, evenAnswers requests, rfl, ⟨hsuccess, ?_, rfl, fun _ => ?_⟩,
    evenAnswers_replies hnoul hbody⟩
  · intro _ value hvalue
    cases hvalue
  · exact TypesafeProvider.get_collapse_eq_string.mpr rfl

end Even

theorem replyingAgent_total (requests : List JudgmentRequest) :
    ∀ s op, ∃ r s', replyingAgent requests s op = some (r, s') := by
  intro s op
  cases op with
  | send bytes => exact ⟨_, _, rfl⟩
  | now => exact ⟨_, _, rfl⟩

/-- A batch of two texts. -/
def twoTexts : List JudgmentRequest :=
  [textRequest "a", { textRequest "b" with requestKey := "r1" }]

theorem adapter_round_trip_twoTexts :
    ∃ (h : List (Event HttpOp HttpRes)) (response : ProviderBatchResult),
      (pinnedHttp.judgeMany twoTexts).run.After h (.ret (.ok response)) ∧
        response.answers = [⟨"r0", .noul .half⟩, ⟨"r1", .noul .half⟩] ∧
        validateBatchResult twoTexts response = .ok () := by
  obtain ⟨outcome, s', h, hrun⟩ := Prog.run_total
    (replyingAgent_total twoTexts) (pinnedHttp.judgeMany twoTexts).run ()
  have hafter := Prog.After.of_run hrun
  have hreplied : (TypesafeAdapter.new "jev-1.13.0").RepliedIn literalBytes
      evenWire twoTexts h := replyingAgent_replied (by decide) hrun
  have hbuilt : ∀ request ∈ twoTexts, Built request := by
    intro request hrequest
    rcases List.mem_pair.mp hrequest with rfl | rfl
    · exact ⟨_, textRequest "a", Or.inl ⟨_, noul_textRequest "a"⟩, rfl⟩
    · exact ⟨_, textRequest "b", Or.inl ⟨_, noul_textRequest "b"⟩, rfl⟩
  have hcall : pinnedHttp.call .judgeMany twoTexts =
      some (pinnedHttp.judgeMany twoTexts) := rfl
  obtain ⟨response, rfl, hanswers, hvalid⟩ :=
    adapter_round_trip (TypesafeAdapter.fronts _ _) hbuilt (by decide)
      (by simp [TypesafeProvider.Compatible, textRequest])
      (by simp [TypesafeProvider.Admits, textRequest]) (fun _ => rfl)
      (fun _ _ => rfl) hcall hafter hreplied
  exact ⟨h, response, hafter, hanswers, hvalid⟩

end DuckJeu
