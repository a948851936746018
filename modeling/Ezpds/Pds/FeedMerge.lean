import Ezpds.Pds.ReadAfterWrite

/-!
# Local posts in a feed

A timeline that the AppView answered from behind gets the requester's own posts put in, each
before the first item that is older. The posts come from the commits after the AppView's rev,
and an update of a post is one of them, whether or not the AppView has the post already.

* `insertPostsInFeed_perm`, `insertPostsInFeed_sublist`, `insertPostsInFeed_sorted`: the items
  that come out, and their order.
* `feed_merge_iff`: when no post comes twice.
-/

namespace Ezpds.Pds

open Library Repo Firehose

/-! ## The viewer -/

/-- `view[key] = value`, on an object. -/
def setKey (view : Json) (key : String) (value : Json) : Json :=
  match view with
  | .object fields => .object (assocInsert key value fields)
  | other => other

/-- `map.remove(key)` -/
def removeKey (view : Json) (key : String) : Json :=
  match view with
  | .object fields => .object (fields.filter fun e => e.1 ≠ key)
  | other => other

structure LocalViewer where
  cdnUrl : String
  did : String
  handle : Option String
  profile : Option Json

/-- The posts that the quoted URIs name. -/
abbrev QuoteMap : Type := String → Option Json

namespace LocalViewer

variable (viewer : LocalViewer)

def imageUrl (kind cid : String) : String :=
  viewer.cdnUrl ++ "/img/" ++ kind ++ "/plain/" ++ viewer.did ++ "/" ++ cid ++ "@jpeg"

def extractBlobCid (blobValue : Json) : Option String := do
  let refVal ← blobValue.get "ref"
  let link ← refVal.get "$link"
  link.asStr

def profileAvatar (profile : Json) : Option Json := do
  let avatarBlob ← profile.get "avatar"
  let cid ← extractBlobCid avatarBlob
  return .string (viewer.imageUrl "avatar" cid)

def profileViewBasic : Json :=
  let view := Json.object [("did", .string viewer.did)]
  let view := viewer.handle.elim view fun handle => setKey view "handle" (.string handle)
  viewer.profile.elim view fun profile =>
    let view := ((profile.get "displayName").bind Json.asStr).elim view fun name =>
      setKey view "displayName" (.string name)
    (viewer.profileAvatar profile).elim view fun avatar => setKey view "avatar" avatar

def updateProfileViewBasic (view : Json) : Json :=
  viewer.profile.elim view fun profile =>
    let view := match (profile.get "displayName").bind Json.asStr with
      | some name => setKey view "displayName" (.string name)
      | none => removeKey view "displayName"
    match profile.get "avatar" with
    | some _ => (viewer.profileAvatar profile).elim view fun avatar => setKey view "avatar" avatar
    | none => removeKey view "avatar"

/-! ### Embeds -/

def hydrateImage (image : Json) : Json :=
  match (image.get "image").bind extractBlobCid with
  | some cid => setKey (setKey image "thumb" (.string (viewer.imageUrl "feed_thumbnail" cid)))
      "fullsize" (.string (viewer.imageUrl "feed_fullsize" cid))
  | none => image

def hydrateImagesEmbed (embed : Json) : Option Json := do
  let value ← embed.get "images"
  let images ← value.asArray
  return .object [("$type", .string "app.bsky.embed.images#view"),
    ("images", .array (images.map viewer.hydrateImage))]

def hydrateExternalEmbed (embed : Json) : Option Json := do
  let external ← embed.get "external"
  let field (key : String) : Json := (external.get key).getD (.string "")
  let view := Json.object [("description", field "description"), ("title", field "title"),
    ("uri", field "uri")]
  let view := ((external.get "thumb").bind extractBlobCid).elim view fun cid =>
    setKey view "thumb" (.string (viewer.imageUrl "feed_thumbnail" cid))
  return .object [("$type", .string "app.bsky.embed.external#view"), ("external", view)]

def hydrateRecordEmbed (embed : Json) (quotes : QuoteMap) : Option Json := do
  let record ← embed.get "record"
  let uri ← record.get "uri"
  let recordUri ← uri.asStr
  let recordView := match quotes recordUri with
    | some quotedPost =>
      let field (key : String) : Json := (quotedPost.get key).getD .null
      .object [("$type", .string "app.bsky.embed.record#viewRecord"), ("author", field "author"),
        ("cid", field "cid"), ("embed", field "embed"), ("indexedAt", field "indexedAt"),
        ("labels", (quotedPost.get "labels").getD (.array [])), ("likeCount", field "likeCount"),
        ("replyCount", field "replyCount"), ("repostCount", field "repostCount"),
        ("uri", .string recordUri), ("value", field "record")]
    | none => .object [("$type", .string "app.bsky.embed.record#viewNotFound"),
        ("notFound", .bool true), ("uri", .string recordUri)]
  return .object [("$type", .string "app.bsky.embed.record#view"), ("record", recordView)]

theorem sizeOf_get {j v : Json} {key : String} (h : j.get key = some v) : sizeOf v < sizeOf j := by
  cases j with
  | object fields =>
    have hFields : ∀ fields : List (String × Json), fields.lookup key = some v →
        sizeOf v < sizeOf fields := by
      intro fields
      induction fields with
      | nil => exact fun h => absurd h (by simp)
      | cons e fields ih =>
        obtain ⟨k, w⟩ := e
        intro h
        rw [List.lookup_cons] at h
        simp only [List.cons.sizeOf_spec, Prod.mk.sizeOf_spec]
        split at h
        · cases h
          omega
        · have hRest := ih h
          omega
    have hLt := hFields fields h
    simp only [Json.object.sizeOf_spec]
    omega
  | _ => cases h

/-- `hydrate_embed` of an embed that is there, with `hydrate_record_with_media_embed`. -/
def hydrateEmbedValue (quotes : QuoteMap) (embed : Json) : Option Json :=
  match (embed.get "$type").bind Json.asStr with
  | some "app.bsky.embed.images" => viewer.hydrateImagesEmbed embed
  | some "app.bsky.embed.external" => viewer.hydrateExternalEmbed embed
  | some "app.bsky.embed.record" => hydrateRecordEmbed embed quotes
  | some "app.bsky.embed.recordWithMedia" =>
    match _ : embed.get "media", embed.get "record" with
    | some mediaEmbed, some recordEmbed => do
      let mediaView ← hydrateEmbedValue quotes mediaEmbed
      let recordView ← hydrateRecordEmbed recordEmbed quotes
      return .object [("$type", .string "app.bsky.embed.recordWithMedia#view"),
        ("media", mediaView), ("record", recordView)]
    | _, _ => none
  | _ => none
  termination_by sizeOf embed
  decreasing_by exact sizeOf_get ‹_›

def hydrateEmbed (embed : Option Json) (quotes : QuoteMap) : Option Json :=
  embed.bind (viewer.hydrateEmbedValue quotes)

def postView (post : RecordDescript) (quotes : QuoteMap) : Json :=
  let view := Json.object [("$type", .string "app.bsky.feed.defs#postView"),
    ("author", viewer.profileViewBasic), ("cid", .string post.cid),
    ("indexedAt", .string post.indexedAt), ("likeCount", .number (.ofU64 0)),
    ("record", post.record), ("replyCount", .number (.ofU64 0)),
    ("repostCount", .number (.ofU64 0)), ("uri", .string post.uri)]
  (viewer.hydrateEmbed (post.record.get "embed") quotes).elim view fun embed =>
    setKey view "embed" embed

/-! ### The feed -/

def itemTime (item : Json) : String :=
  (((item.get "post").bind fun post => post.get "indexedAt").bind Json.asStr).getD
    "1970-01-01T00:00:00.000Z"

/-- The time of the last item, before anything is put in. -/
def lastTime (feed : List Json) : String :=
  (feed.getLast?.map itemTime).getD "1970-01-01T00:00:00.000Z"

def feedItem (quotes : QuoteMap) (post : RecordDescript) : Json :=
  .object [("post", viewer.postView post quotes)]

/-- One turn of the loop over the posts. -/
def insertPost (quotes : QuoteMap) (lastTime : String) (feed : List Json)
    (post : RecordDescript) : List Json :=
  if post.indexedAt ≤ lastTime then feed
  else
    let insertIdx := feed.findIdx fun item => itemTime item < post.indexedAt
    feed.insertIdx insertIdx (viewer.feedItem quotes post)

def insertPostsInFeed (feed : List Json) (posts : List RecordDescript) (quotes : QuoteMap) :
    List Json :=
  posts.foldl (viewer.insertPost quotes (lastTime feed)) feed

/-- `refresh_own_authored_items`, on one item. -/
def refreshItem (requester : String) (item : Json) : Json :=
  match item.get "post" with
  | none => item
  | some post =>
    match post.get "author" with
    | none => item
    | some author =>
      if ((author.get "did").bind Json.asStr).getD "" = requester then
        setKey item "post" (setKey post "author" (viewer.updateProfileViewBasic author))
      else item

/-- `get_timeline`, after the quotes were fetched. -/
def getTimeline (original : Json) (records : LocalRecords) (requester : String)
    (quotes : QuoteMap) : Json :=
  match original.get "feed" with
  | some (.array feed) =>
    setKey original "feed" (.array (viewer.insertPostsInFeed
      (feed.map (viewer.refreshItem requester)) records.posts quotes))
  | _ => original

end LocalViewer

/-! ## What is put in -/

open LocalViewer

def itemUri (item : Json) : Option String :=
  ((item.get "post").bind fun post => post.get "uri").bind Json.asStr

/-- The posts that are newer than the last item. -/
def newPosts (feed : List Json) (posts : List RecordDescript) : List RecordDescript :=
  posts.filter fun post => lastTime feed < post.indexedAt

variable {viewer : LocalViewer} {quotes : QuoteMap} {feed : List Json}
  {posts : List RecordDescript} {post : RecordDescript} {last requester : String}

theorem get_setKey {view value : Json} {key key' : String} (h : key' ≠ key) :
    (setKey view key value).get key' = view.get key' := by
  cases view with
  | object fields => exact lookup_assocInsert_of_ne h
  | _ => rfl

theorem get_setKey_self {view value old : Json} {key : String} (h : view.get key = some old) :
    (setKey view key value).get key = some value := by
  cases view with
  | object fields => exact lookup_assocInsert_self
  | _ => cases h

theorem postView_get {key : String} (h : key ≠ "embed") : (viewer.postView post quotes).get key =
    (Json.object [("$type", .string "app.bsky.feed.defs#postView"),
      ("author", viewer.profileViewBasic), ("cid", .string post.cid),
      ("indexedAt", .string post.indexedAt), ("likeCount", .number (.ofU64 0)),
      ("record", post.record), ("replyCount", .number (.ofU64 0)),
      ("repostCount", .number (.ofU64 0)), ("uri", .string post.uri)]).get key := by
  unfold postView
  cases viewer.hydrateEmbed (post.record.get "embed") quotes with
  | none => rfl
  | some embed =>
    dsimp only [Option.elim_some]
    exact get_setKey h

theorem itemTime_feedItem : itemTime (viewer.feedItem quotes post) = post.indexedAt := by
  have hPost : (viewer.feedItem quotes post).get "post" = some (viewer.postView post quotes) := rfl
  rw [itemTime, hPost, Option.bind_some, postView_get (by decide)]
  rfl

theorem itemUri_feedItem : itemUri (viewer.feedItem quotes post) = some post.uri := by
  have hPost : (viewer.feedItem quotes post).get "post" = some (viewer.postView post quotes) := rfl
  rw [itemUri, hPost, Option.bind_some, postView_get (by decide)]
  rfl

theorem insertIdx_findIdx {α : Type} {p : α → Bool} {l : List α} {a : α} :
    l.insertIdx (l.findIdx p) a =
      l.takeWhile (fun b => !p b) ++ a :: l.dropWhile fun b => !p b := by
  induction l with
  | nil => rfl
  | cons b l ih =>
    rw [List.findIdx_cons]
    cases hp : p b with
    | true => simp [hp]
    | false => simp [hp, ih]

/-- A post is put before the first item that is older. -/
theorem insertPost_eq (h : last < post.indexedAt) : viewer.insertPost quotes last feed post =
    (feed.takeWhile fun item => !decide (itemTime item < post.indexedAt)) ++
      viewer.feedItem quotes post ::
        feed.dropWhile fun item => !decide (itemTime item < post.indexedAt) := by
  rw [insertPost, if_neg (not_le.mpr h)]
  exact insertIdx_findIdx

theorem insertPost_of_le (h : ¬ last < post.indexedAt) :
    viewer.insertPost quotes last feed post = feed :=
  if_pos (not_lt.mp h)

theorem insertPost_sublist : feed.Sublist (viewer.insertPost quotes last feed post) := by
  by_cases h : last < post.indexedAt
  · have hSplit := List.takeWhile_append_dropWhile
      (p := fun item => !decide (itemTime item < post.indexedAt)) (l := feed)
    rw [insertPost_eq h]
    nth_rewrite 1 [← hSplit]
    exact (List.Sublist.refl _).append (List.sublist_cons_self _ _)
  · rw [insertPost_of_le h]

theorem insertPost_perm (h : last < post.indexedAt) :
    (viewer.insertPost quotes last feed post).Perm (viewer.feedItem quotes post :: feed) := by
  rw [insertPost_eq h]
  refine List.perm_middle.trans ?_
  rw [List.takeWhile_append_dropWhile]

/-- The latest item comes first. -/
def Descending (feed : List Json) : Prop :=
  feed.Pairwise fun item later => itemTime later ≤ itemTime item

theorem insertPost_descending (hFeed : Descending feed) :
    Descending (viewer.insertPost quotes last feed post) := by
  by_cases h : last < post.indexedAt
  · rw [insertPost_eq h]
    have hSplit := List.takeWhile_append_dropWhile
      (p := fun item => !decide (itemTime item < post.indexedAt)) (l := feed)
    have hOlder : ∀ item ∈ feed.dropWhile fun item => !decide (itemTime item < post.indexedAt),
        itemTime item ≤ post.indexedAt := by
      cases hDrop : feed.dropWhile fun item => !decide (itemTime item < post.indexedAt) with
      | nil => exact fun item hItem => absurd hItem (by simp)
      | cons first rest =>
        have hFirst : itemTime first < post.indexedAt := by
          have hHead := List.head?_dropWhile_not
            (fun item => !decide (itemTime item < post.indexedAt)) feed
          rw [hDrop] at hHead
          simpa using hHead
        rw [← hSplit, hDrop] at hFeed
        have hTail := (List.pairwise_cons.mp (List.pairwise_append.mp hFeed).2.1).1
        intro item hItem
        rcases List.mem_cons.mp hItem with rfl | hItem
        · exact hFirst.le
        · exact (hTail item hItem).trans hFirst.le
    have hNewer : ∀ item ∈ feed.takeWhile fun item => !decide (itemTime item < post.indexedAt),
        post.indexedAt ≤ itemTime item := by
      intro item hItem
      have hKept := List.mem_takeWhile_imp hItem
      rwa [Bool.not_eq_true', decide_eq_false_iff_not, not_lt] at hKept
    rw [← hSplit] at hFeed
    obtain ⟨hBefore, hAfter, hCross⟩ := List.pairwise_append.mp hFeed
    refine List.pairwise_append.mpr ⟨hBefore, List.pairwise_cons.mpr ⟨?_, hAfter⟩, ?_⟩
    · intro item hItem
      rw [itemTime_feedItem]
      exact hOlder item hItem
    · intro item hItem later hLater
      rcases List.mem_cons.mp hLater with rfl | hLater
      · rw [itemTime_feedItem]
        exact hNewer item hItem
      · exact hCross item hItem later hLater
  · rw [insertPost_of_le h]
    exact hFeed

/-! ## The whole run -/

theorem foldl_insertPost_sublist :
    feed.Sublist (posts.foldl (viewer.insertPost quotes last) feed) := by
  induction posts generalizing feed with
  | nil => exact List.Sublist.refl _
  | cons post posts ih => exact insertPost_sublist.trans ih

theorem foldl_insertPost_descending (h : Descending feed) :
    Descending (posts.foldl (viewer.insertPost quotes last) feed) := by
  induction posts generalizing feed with
  | nil => exact h
  | cons post posts ih => exact ih (insertPost_descending h)

theorem foldl_insertPost_perm :
    (posts.foldl (viewer.insertPost quotes last) feed).Perm
      (feed ++ (posts.filter fun post => last < post.indexedAt).map (viewer.feedItem quotes)) := by
  induction posts generalizing feed with
  | nil => simp
  | cons post posts ih =>
    rw [List.foldl_cons]
    by_cases h : last < post.indexedAt
    · rw [List.filter_cons_of_pos (by simpa using h), List.map_cons]
      exact ih.trans (((insertPost_perm h).append_right _).trans List.perm_middle.symm)
    · rw [List.filter_cons_of_neg (by simpa using h), insertPost_of_le h]
      exact ih

/-- The items of the result: those of the feed in their order, and every new post once, all of
them latest first and no post twice. -/
structure FeedMerged (viewer : LocalViewer) (quotes : QuoteMap) (feed : List Json)
    (posts : List RecordDescript) (result : List Json) : Prop where
  kept : feed.Sublist result
  inserted : result.Perm (feed ++ (newPosts feed posts).map (viewer.feedItem quotes))
  sorted : Descending result
  once : (result.filterMap itemUri).Nodup

/-- No new post comes twice, and none is in the feed already. -/
structure FreshPosts (feed : List Json) (posts : List RecordDescript) : Prop where
  distinct : ((newPosts feed posts).map RecordDescript.uri).Nodup
  absent : ∀ post ∈ newPosts feed posts, ∀ item ∈ feed, itemUri item ≠ some post.uri

/-- A feed as the AppView gives it: latest first, and no post twice. -/
structure AppViewFeed where
  items : List Json
  sorted : Descending items
  distinct : (items.filterMap itemUri).Nodup

theorem filterMap_itemUri_feedItem :
    (posts.map (viewer.feedItem quotes)).filterMap itemUri = posts.map RecordDescript.uri := by
  rw [List.filterMap_map, ← List.filterMap_eq_map]
  congr 1
  funext post
  exact itemUri_feedItem

theorem FeedMerged.fresh {result : List Json} (h : FeedMerged viewer quotes feed posts result) :
    FreshPosts feed posts := by
  have hOnce := ((h.inserted.filterMap itemUri).nodup_iff).mp h.once
  rw [List.filterMap_append, filterMap_itemUri_feedItem] at hOnce
  obtain ⟨_, hDistinct, hDisjoint⟩ := List.nodup_append.mp hOnce
  refine ⟨hDistinct, fun post hPost item hItem hUri => ?_⟩
  exact hDisjoint _ (List.mem_filterMap.mpr ⟨item, hItem, hUri⟩) _
    (List.mem_map_of_mem hPost) rfl

theorem FreshPosts.merged {feed : AppViewFeed} (h : FreshPosts feed.items posts) :
    FeedMerged viewer quotes feed.items posts
      (viewer.insertPostsInFeed feed.items posts quotes) where
  kept := foldl_insertPost_sublist
  inserted := foldl_insertPost_perm
  sorted := foldl_insertPost_descending feed.sorted
  once := by
    refine ((foldl_insertPost_perm.filterMap itemUri).nodup_iff).mpr ?_
    rw [List.filterMap_append, filterMap_itemUri_feedItem]
    refine List.nodup_append.mpr ⟨feed.distinct, h.distinct, ?_⟩
    intro uri hFeed uri' hNew hEq
    obtain ⟨item, hItem, hUri⟩ := List.mem_filterMap.mp hFeed
    obtain ⟨post, hPost, rfl⟩ := List.mem_map.mp hNew
    exact h.absent post hPost item hItem (hUri.trans (congrArg some hEq))

/-- The merged feed is as it should be if and only if the new posts are fresh. -/
theorem feed_merge_iff (viewer : LocalViewer) (quotes : QuoteMap) (feed : AppViewFeed)
    (posts : List RecordDescript) :
    FeedMerged viewer quotes feed.items posts
      (viewer.insertPostsInFeed feed.items posts quotes) ↔ FreshPosts feed.items posts := by
  constructor
  · intro h
    exact h.fresh
  · intro h
    exact h.merged

/-! ## The timeline -/

theorem refreshItem_get {item post : Json} {key : String} (h : item.get "post" = some post)
    (hKey : key ≠ "author") : ((viewer.refreshItem requester item).get "post").bind
      (fun post => post.get key) = post.get key := by
  unfold refreshItem
  rw [h]
  dsimp only
  split
  · rw [h]
    rfl
  · split
    · rw [get_setKey_self h, Option.bind_some, get_setKey hKey]
    · rw [h]
      rfl

/-- The refreshed author is not what the posts are told apart or ordered by. -/
theorem refreshItem_kept (item : Json) :
    itemTime (viewer.refreshItem requester item) = itemTime item ∧
      itemUri (viewer.refreshItem requester item) = itemUri item := by
  cases h : item.get "post" with
  | none =>
    have hSame : viewer.refreshItem requester item = item := by
      unfold refreshItem
      rw [h]
    rw [hSame]
    exact ⟨rfl, rfl⟩
  | some post =>
    unfold itemTime itemUri
    rw [refreshItem_get h (by decide), refreshItem_get h (by decide), h]
    exact ⟨rfl, rfl⟩

/-- The feed with its authors refreshed. -/
def AppViewFeed.refreshed (viewer : LocalViewer) (requester : String) (feed : AppViewFeed) :
    AppViewFeed where
  items := feed.items.map (viewer.refreshItem requester)
  sorted := by
    refine List.pairwise_map.mpr (feed.sorted.imp fun h => ?_)
    rwa [(refreshItem_kept _).1, (refreshItem_kept _).1]
  distinct := by
    have hUris : (feed.items.map (viewer.refreshItem requester)).filterMap itemUri =
        feed.items.filterMap itemUri := by
      rw [List.filterMap_map]
      congr 1
      funext item
      exact (refreshItem_kept item).2
    rw [hUris]
    exact feed.distinct

theorem lastTime_refreshed {feed : AppViewFeed} :
    lastTime (feed.refreshed viewer requester).items = lastTime feed.items := by
  unfold lastTime AppViewFeed.refreshed
  rw [List.getLast?_map, Option.map_map]
  congr 2
  funext item
  exact (refreshItem_kept item).1

theorem freshPosts_refreshed {feed : AppViewFeed} :
    FreshPosts (feed.refreshed viewer requester).items posts ↔ FreshPosts feed.items posts := by
  have hNew : newPosts (feed.refreshed viewer requester).items posts =
      newPosts feed.items posts := by
    unfold newPosts
    rw [lastTime_refreshed]
  constructor
  · intro h
    refine ⟨hNew ▸ h.distinct, fun post hPost item hItem hUri => ?_⟩
    refine h.absent post (hNew ▸ hPost) _ (List.mem_map_of_mem hItem) ?_
    rw [(refreshItem_kept item).2, hUri]
  · intro h
    refine ⟨hNew ▸ h.distinct, fun post hPost item hItem hUri => ?_⟩
    obtain ⟨old, hOld, rfl⟩ := List.mem_map.mp hItem
    rw [(refreshItem_kept old).2] at hUri
    exact h.absent post (hNew ▸ hPost) old hOld hUri

/-- The timeline is merged from the refreshed feed, and is right for fresh posts. -/
theorem getTimeline_merged {original : Json} {feed : AppViewFeed} {records : LocalRecords}
    (hFeed : original.get "feed" = some (.array feed.items))
    (hFresh : FreshPosts feed.items records.posts) :
    ∃ result, (viewer.getTimeline original records requester quotes).get "feed" =
        some (.array result) ∧
      FeedMerged viewer quotes (feed.refreshed viewer requester).items records.posts result := by
  refine ⟨_, ?_, FreshPosts.merged (freshPosts_refreshed.mpr hFresh)⟩
  rw [getTimeline, hFeed]
  exact get_setKey_self hFeed

variable {Blob Cid : Type} [CidText Cid] {enc : Encoders Cid} {reads : Reads Blob enc}
  {did header : String}

/-- The selection offers no record twice, so for its posts only the feed matters: a post that
was updated after the AppView's rev is in both. -/
theorem freshPosts_selection [DagCbor Blob] :
    FreshPosts feed (getRecordsSinceRev reads did (some header)).posts ↔
      ∀ post ∈ newPosts feed (getRecordsSinceRev reads did (some header)).posts,
        ∀ item ∈ feed, itemUri item ≠ some post.uri := by
  constructor
  · intro h
    exact h.absent
  · intro h
    refine ⟨?_, h⟩
    have hOnce : ((getRecordsSinceRev reads did (some header)).all.map
        RecordDescript.uri).Nodup := once_answer
    rw [LocalRecords.all, List.map_append] at hOnce
    exact List.Nodup.sublist (List.filter_sublist.map _) hOnce.of_append_right

/-! An update of a post that the AppView has. -/

def updatedUri : String := "at://did:plc:tester/app.bsky.feed.post/abc"

def indexedFeed : AppViewFeed where
  items := [.object [("post", .object [("indexedAt", .string "2024-01-02T00:00:00.000Z"),
    ("uri", .string updatedUri)])]]
  sorted := List.pairwise_singleton _ _
  distinct := List.nodup_singleton _

def updatedPost : RecordDescript :=
  ⟨updatedUri, "bafy_new", "2024-01-03T00:00:00.000Z", .object []⟩

theorem feed_merge_duplicate : ¬ FeedMerged ⟨"https://cdn.bsky.app", "did:plc:tester", none, none⟩
    (fun _ => none) indexedFeed.items [updatedPost]
    (insertPostsInFeed ⟨"https://cdn.bsky.app", "did:plc:tester", none, none⟩ indexedFeed.items
      [updatedPost] fun _ => none) := by
  intro h
  have hNew : updatedPost ∈ newPosts indexedFeed.items [updatedPost] :=
    List.mem_filter.mpr ⟨List.mem_singleton_self _, by decide +kernel⟩
  exact h.fresh.absent _ hNew _ (List.mem_singleton_self _) rfl

end Ezpds.Pds
