import Mathlib.Data.List.Basic
import MechanicsCore.Http.Retries
import MechanicsCore.Library.OrdMap

/-! What a script sees of the response headers: the values of the allowlisted names,
grouped by name, and nothing else of them. -/
namespace MechanicsCore.Http

variable {X : Externals}

/-- What `http::HeaderMap` promises: a name stands once, in lower case and with a value. -/
structure HeaderMap.Valid (headers : HeaderMap X) : Prop where
  distinct : headers.keys.Nodup
  lower : ∀ name ∈ headers.keys, name.toLower = name
  filled : ∀ entry ∈ headers, entry.2 ≠ []

/-- The values of a name as texts, in arrival order. -/
def HeaderMap.texts (headers : HeaderMap X) (name : String) : List String := (headers.getAll name).map X.headerText

section Values

theorem foldl_insert (name : String) (values : List X.HeaderValue) (out : EndpointHttpHeaders) :
    (values.foldl (fun out value => out.insert name (X.headerText value)) out).entries =
      out.entries ++ (values.map X.headerText).map fun text => (name,text) := by
  induction values generalizing out with
  | nil => simp
  | cons value values ih =>
    rw [List.foldl_cons,ih]
    simp [EndpointHttpHeaders.insert]

theorem fromKeys_entries (headers : HeaderMap X) {names seen : List String} (distinct : names.Nodup)
    (unseen : ∀ name ∈ names, name ∉ seen) (out : EndpointHttpHeaders) :
    (EndpointHttpHeaders.fromKeys headers names seen out).entries =
      out.entries ++ names.flatMap fun name => (headers.texts name).map fun text => (name,text) := by
  induction names generalizing seen out with
  | nil => simp [EndpointHttpHeaders.fromKeys]
  | cons name names ih =>
    obtain ⟨first,others⟩ := List.nodup_cons.mp distinct
    have fresh : ¬ seen.contains name = true := by simpa using unseen name List.mem_cons_self
    have next : ∀ other ∈ names, other ∉ name::seen := by
      intro other member inside
      rcases List.mem_cons.mp inside with rfl | old
      · exact first member
      · exact unseen other (List.mem_cons_of_mem _ member) old
    rw [EndpointHttpHeaders.fromKeys,if_neg fresh,ih others next,foldl_insert,List.flatMap_cons,List.append_assoc]
    rfl

theorem getAll_absent {headers : HeaderMap X} {name : String} (absent : name ∉ headers.keys) : headers.getAll name = [] := by
  have missing : headers.lookup name = none := by
    rw [List.lookup_eq_none_iff]
    intro entry member
    have other : name ≠ entry.1 := fun same => absent (same ▸ List.mem_map_of_mem member)
    simpa using other
  rw [HeaderMap.getAll,missing]
  rfl

/-- Of the entries of one name all values are found, or none. -/
theorem values_of_key {key : String} (lower : key.toLower = key) (name : String) (texts : List String) :
    ((texts.map fun text => (key,text)).filter fun entry => EndpointHttpHeaders.eqIgnoreAsciiCase entry.1 name).map Prod.snd =
      if key = name.toLower then texts else [] := by
  rw [List.filter_map,List.map_map]
  by_cases same : key = name.toLower
  · have all : ∀ text ∈ texts, ((fun entry : String × String => EndpointHttpHeaders.eqIgnoreAsciiCase entry.1 name) ∘
        fun text => (key,text)) text = true := by simp [EndpointHttpHeaders.eqIgnoreAsciiCase,lower,← same]
    rw [if_pos same,List.filter_eq_self.mpr all]
    exact List.map_id texts
  · have none : ∀ text ∈ texts, ¬ ((fun entry : String × String => EndpointHttpHeaders.eqIgnoreAsciiCase entry.1 name) ∘
        fun text => (key,text)) text = true := by simp [EndpointHttpHeaders.eqIgnoreAsciiCase,lower,same]
    rw [if_neg same,List.filter_eq_nil_iff.mpr none]
    rfl

theorem values_of_keys (headers : HeaderMap X) (name : String) {keys : List String} (distinct : keys.Nodup)
    (lower : ∀ key ∈ keys, key.toLower = key) :
    ((keys.flatMap fun key => (headers.texts key).map fun text => (key,text)).filter fun entry =>
      EndpointHttpHeaders.eqIgnoreAsciiCase entry.1 name).map Prod.snd =
      if name.toLower ∈ keys then headers.texts name.toLower else [] := by
  induction keys with
  | nil => rfl
  | cons key keys ih =>
    obtain ⟨first,others⟩ := List.nodup_cons.mp distinct
    have rest := ih others fun other member => lower other (List.mem_cons_of_mem _ member)
    rw [List.flatMap_cons,List.filter_append,List.map_append,rest,values_of_key (lower key List.mem_cons_self)]
    by_cases same : key = name.toLower
    · rw [← same,if_pos rfl,if_neg first,if_pos List.mem_cons_self,List.append_nil]
    · have elsewhere : name.toLower ∈ key::keys ↔ name.toLower ∈ keys := by
        rw [List.mem_cons,or_iff_right (Ne.symm same)]
      rw [if_neg same,List.nil_append]
      exact if_congr elsewhere.symm rfl rfl

/-- One pass by exact names and one by names in any case: the values of a name come out as
they arrived. -/
theorem values_fromHttpMap {headers : HeaderMap X} (valid : headers.Valid) (name : String) :
    (EndpointHttpHeaders.fromHttpMap headers).values name = headers.texts name.toLower := by
  unfold EndpointHttpHeaders.values EndpointHttpHeaders.fromHttpMap
  rw [fromKeys_entries headers valid.distinct (by simp)]
  change ((headers.keys.flatMap _).filter _).map Prod.snd = _
  rw [values_of_keys headers name valid.distinct valid.lower]
  split
  · rfl
  · rename_i absent
    rw [HeaderMap.texts,getAll_absent absent]
    rfl

theorem texts_eq_nil_iff {headers : HeaderMap X} (valid : headers.Valid) (key : String) :
    headers.texts key = [] ↔ key ∉ headers.keys := by
  constructor
  · intro empty present
    cases found : headers.lookup key with
    | none =>
      obtain ⟨entry,member,rfl⟩ := List.mem_map.mp present
      simpa using List.lookup_eq_none_iff.mp found entry member
    | some values =>
      obtain ⟨before,after,split,_⟩ := List.lookup_eq_some_iff.mp found
      have ink := valid.filled (key,values) (by rw [split]; simp)
      rw [HeaderMap.texts,HeaderMap.getAll,found,List.map_eq_nil_iff] at empty
      exact ink empty
  · intro absent
    rw [HeaderMap.texts,getAll_absent absent]
    rfl

end Values

section Exposed

theorem lookup_filter (texts : HeaderTexts) (name key : String) :
    (texts.filter fun entry => entry.1 != name).lookup key = if key = name then none else texts.lookup key := by
  induction texts with
  | nil => simp
  | cons entry texts ih =>
    obtain ⟨first,text⟩ := entry
    by_cases dropped : first = name
    · rw [List.filter_cons_of_neg (by simp [dropped]),ih,Library.lookup_entry,dropped]
      by_cases same : key = name
      · rw [if_pos same,if_pos same]
      · rw [if_neg same,if_neg same,if_neg same]
    · rw [List.filter_cons_of_pos (by simpa using dropped),Library.lookup_entry,Library.lookup_entry,ih]
      by_cases here : key = first
      · rw [if_pos here,if_pos here,here,if_neg dropped]
      · rw [if_neg here,if_neg here]

theorem lookup_insert (texts : HeaderTexts) (name text key : String) :
    (texts.insert name text).lookup key = if key = name then some text else texts.lookup key := by
  rw [HeaderTexts.insert,List.lookup_append,lookup_filter,List.lookup_singleton]
  by_cases same : key = name
  · simp [same]
  · simp [same]

theorem nodup_insert {texts : HeaderTexts} (distinct : (texts.map Prod.fst).Nodup) (name text : String) :
    ((texts.insert name text).map Prod.fst).Nodup := by
  have kept : ((texts.filter fun entry => entry.1 != name).map Prod.fst).Nodup :=
    distinct.sublist (List.filter_sublist.map Prod.fst)
  rw [HeaderTexts.insert,List.map_append,List.nodup_append]
  refine ⟨kept,List.pairwise_singleton _ _,fun key member last inside same => ?_⟩
  obtain ⟨entry,found,rfl⟩ := List.mem_map.mp member
  have other := (List.mem_filter.mp found).2
  rw [List.map_singleton,List.mem_singleton] at inside
  simp [same,inside] at other

/-- The fold over the allowlist: a name with values sets its entry, each time to the same. -/
theorem lookup_exposed {headers : EndpointHttpHeaders} {texts : String → List String}
    (grouped : ∀ name, headers.values name = texts name.toLower) (allowlist : List String) (key : String) :
    (extractExposedResponseHeadersPrepared headers allowlist).lookup key =
      if key ∈ allowlist.map String.toLower ∧ texts key ≠ [] then some (", ".intercalate (texts key)) else none := by
  have fold : ∀ out : HeaderTexts, (allowlist.foldl (fun out name =>
      let parts := headers.values name
      if parts.isEmpty then out else out.insert name.toLower (", ".intercalate parts)) out).lookup key =
      if key ∈ allowlist.map String.toLower ∧ texts key ≠ [] then some (", ".intercalate (texts key))
      else out.lookup key := by
    induction allowlist with
    | nil => exact fun out => rfl
    | cons name allowlist ih =>
      intro out
      rw [List.foldl_cons,ih,grouped]
      by_cases later : key ∈ allowlist.map String.toLower ∧ texts key ≠ []
      · rw [if_pos later,if_pos ⟨List.mem_cons_of_mem _ later.1,later.2⟩]
      · rw [if_neg later]
        by_cases here : key = name.toLower
        · rw [← here]
          cases empty : texts key with
          | nil => simp
          | cons part parts => simp [lookup_insert,← here]
        · have elsewhere : ¬ (key ∈ (name::allowlist).map String.toLower ∧ texts key ≠ []) := by
            rintro ⟨member,ink⟩
            rcases List.mem_cons.mp member with same | rest
            · exact here same
            · exact later ⟨rest,ink⟩
          rw [if_neg elsewhere]
          dsimp only
          split
          · rfl
          · rw [lookup_insert,if_neg here]
  exact fold []

theorem nodup_exposed (headers : EndpointHttpHeaders) (allowlist : List String) :
    ((extractExposedResponseHeadersPrepared headers allowlist).map Prod.fst).Nodup := by
  have fold : ∀ out : HeaderTexts, (out.map Prod.fst).Nodup → ((allowlist.foldl (fun out name =>
      let parts := headers.values name
      if parts.isEmpty then out else out.insert name.toLower (", ".intercalate parts)) out).map Prod.fst).Nodup := by
    induction allowlist with
    | nil => exact fun out distinct => distinct
    | cons name allowlist ih =>
      intro out distinct
      refine ih _ ?_
      dsimp only
      split
      · exact distinct
      · exact nodup_insert distinct _ _
  exact fold [] List.nodup_nil

end Exposed

/-- Two responses that the script must not tell apart. -/
structure Agree (allowlist : List String) (a b : EndpointHttpResponse) : Prop where
  status : a.status = b.status
  contentLength : a.contentLength = b.contentLength
  body : a.body = b.body
  headers : ∀ name ∈ allowlist, a.headers.values name = b.headers.values name

/-- The retry loop of a call breaks out with this response. -/
def FinalResponse (endpoint : HttpEndpoint) (client : EndpointHttpClient X)
    (defaultTimeoutMs defaultResponseMaxBytes : Option Nat) (options : EndpointCallOptions X) (w : World X)
    (res : EndpointHttpResponse) : Prop :=
  ∃ url headers w', buildUrlForOptions endpoint options = .ok url ∧
    buildHeadersForOptions endpoint (defaultContentType endpoint options) options = .ok headers ∧
    (attempts endpoint.retryPolicy client (deadlineFrom X (endpoint.timeoutMs.or defaultTimeoutMs) w.clock)
      (buildRequest endpoint options url headers (endpoint.responseMaxBytes.or defaultResponseMaxBytes))
      endpoint.retryPolicy.maxAttempts 1).run w = .ok (some res) w'

/-- What the caller gets of a run. -/
def resultOf {α : Type} : EStateM.Result IoError (World X) α → Except IoError α
  | .ok a _ => .ok a
  | .error error _ => .error error

section Hidden

theorem exposed_congr {a b : EndpointHttpHeaders} {allowlist : List String}
    (same : ∀ name ∈ allowlist, a.values name = b.values name) :
    extractExposedResponseHeadersPrepared a allowlist = extractExposedResponseHeadersPrepared b allowlist := by
  unfold extractExposedResponseHeadersPrepared
  refine List.foldl_ext _ _ _ fun out name member => ?_
  rw [same name member]

theorem Agree.decode {prepared : PreparedHttpEndpoint} {a b : EndpointHttpResponse}
    (agree : Agree prepared.exposedResponseAllowlist a b) (endpoint : HttpEndpoint) (responseMaxBytes : Option Nat) :
    (decodeResponse endpoint prepared responseMaxBytes a : Except IoError (EndpointResponse X)) =
      decodeResponse endpoint prepared responseMaxBytes b := by
  unfold decodeResponse
  rw [agree.status,agree.contentLength,agree.body,exposed_congr agree.headers]

theorem FinalResponse.result {endpoint : HttpEndpoint} {client : EndpointHttpClient X}
    {defaultTimeoutMs defaultResponseMaxBytes : Option Nat} {options : EndpointCallOptions X} {w : World X}
    {res : EndpointHttpResponse} (final : FinalResponse endpoint client defaultTimeoutMs defaultResponseMaxBytes options w res)
    (prepared : PreparedHttpEndpoint) :
    resultOf ((executeEndpoint endpoint client prepared defaultTimeoutMs defaultResponseMaxBytes options).run w) =
      decodeResponse endpoint prepared (endpoint.responseMaxBytes.or defaultResponseMaxBytes) res := by
  obtain ⟨url,headers,w',built,named,looped⟩ := final
  rw [executeEndpoint_eq,built,ofExcept_ok,named,ofExcept_ok,now_run,EStateM.run_bind,looped]
  dsimp only [conclude]
  cases decodeResponse endpoint prepared (endpoint.responseMaxBytes.or defaultResponseMaxBytes) res with
  | ok response => rfl
  | error error => rfl

end Hidden

/-- The script sees every value of every allowlisted name, joined in the order of arrival,
whatever the order of the allowlist, and no other header has a part in the result. -/
theorem allowlisted_headers_only :
    (∀ headers : HeaderMap X, headers.Valid → ∀ allowlist : List String,
      ((extractExposedResponseHeadersPrepared (.fromHttpMap headers) allowlist).map Prod.fst).Nodup ∧
      (∀ key, (extractExposedResponseHeadersPrepared (.fromHttpMap headers) allowlist).lookup key =
        if key ∈ allowlist.map String.toLower ∧ key ∈ headers.keys then
          some (", ".intercalate ((headers.getAll key).map X.headerText))
        else none) ∧
      ∀ reordered, reordered.Perm allowlist → ∀ key,
        (extractExposedResponseHeadersPrepared (.fromHttpMap headers) reordered).lookup key =
          (extractExposedResponseHeadersPrepared (.fromHttpMap headers) allowlist).lookup key) ∧
    ∀ (endpoint : HttpEndpoint) (prepared : PreparedHttpEndpoint) (defaultTimeoutMs defaultResponseMaxBytes : Option Nat)
      (options : EndpointCallOptions X) (client client' : EndpointHttpClient X) (w w' : World X)
      (res res' : EndpointHttpResponse),
      FinalResponse endpoint client defaultTimeoutMs defaultResponseMaxBytes options w res →
      FinalResponse endpoint client' defaultTimeoutMs defaultResponseMaxBytes options w' res' →
      Agree prepared.exposedResponseAllowlist res res' →
      resultOf ((executeEndpoint endpoint client prepared defaultTimeoutMs defaultResponseMaxBytes options).run w) =
        resultOf ((executeEndpoint endpoint client' prepared defaultTimeoutMs defaultResponseMaxBytes options).run w') := by
  refine ⟨fun headers valid allowlist => ?_,?_⟩
  · have lookup : ∀ names key, (extractExposedResponseHeadersPrepared (.fromHttpMap headers) names).lookup key =
        if key ∈ names.map String.toLower ∧ key ∈ headers.keys then
          some (", ".intercalate ((headers.getAll key).map X.headerText))
        else none := by
      intro names key
      have present : headers.texts key ≠ [] ↔ key ∈ headers.keys := by
        rw [Ne,texts_eq_nil_iff valid,not_not]
      rw [lookup_exposed (values_fromHttpMap valid)]
      exact if_congr (and_congr_right fun _ => present) rfl rfl
    refine ⟨nodup_exposed _ allowlist,lookup allowlist,fun reordered permuted key => ?_⟩
    rw [lookup,lookup]
    exact if_congr (and_congr_left fun _ => (permuted.map _).mem_iff) rfl rfl
  · intro endpoint prepared defaultTimeoutMs defaultResponseMaxBytes options client client' w w' res res' final final' agree
    rw [final.result,final'.result]
    exact agree.decode endpoint _

/-- A client whose responses carry a header that is not for the script. -/
def answering (secret : String) : EndpointHttpClient textual where
  execute _ _ _ := (.ok ⟨200,⟨[("etag","a"),("x-secret",secret)]⟩,none,[]⟩,0)

theorem allowlisted_headers_only_at_secret :
    (extractExposedResponseHeadersPrepared (.fromHttpMap ([("etag",["a","b"]),("x-secret",["s"])] : HeaderMap textual))
      ["ETag","x-absent"]).lookup "etag" = some "a, b" ∧
    resultOf ((executeEndpoint {unavailable with timeoutMs := none} (answering "s") ⟨["etag"]⟩ none none
        ⟨[],[],[],.absent⟩).run ⟨0,[]⟩) =
      resultOf ((executeEndpoint {unavailable with timeoutMs := none} (answering "t") ⟨["etag"]⟩ none none
        ⟨[],[],[],.absent⟩).run ⟨0,[]⟩) := by
  have valid : HeaderMap.Valid ([("etag",["a","b"]),("x-secret",["s"])] : HeaderMap textual) :=
    ⟨by decide,by decide +kernel,by simp⟩
  have only := allowlisted_headers_only (X := textual)
  refine ⟨?_,?_⟩
  · rw [(only.1 _ valid ["ETag","x-absent"]).2.1]
    decide +kernel
  · refine only.2 _ _ none none _ _ _ _ _ ⟨200,⟨[("etag","a"),("x-secret","s")]⟩,none,[]⟩
      ⟨200,⟨[("etag","a"),("x-secret","t")]⟩,none,[]⟩ ⟨_,_,_,rfl,rfl,rfl⟩ ⟨_,_,_,rfl,rfl,rfl⟩ ⟨rfl,rfl,rfl,?_⟩
    decide +kernel

end MechanicsCore.Http
