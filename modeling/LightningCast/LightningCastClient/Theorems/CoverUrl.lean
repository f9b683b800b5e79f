import LightningCast.LightningCastClient.Theorems.Parse

open Throwing (Returns)
open Json (Value)

namespace LightningCastClient

-- The host of a URL ends where `rest` begins.
def EndsHost (rest : Bytes) : Prop :=
  ∀ c ∈ rest.head?, c ∈ ascii ":/?#"

instance (rest : Bytes) : Decidable (EndsHost rest) :=
  inferInstanceAs (Decidable (∀ _ ∈ _, _))

-- The host of the URL is "localhost".
def IsLocalhost (url : Bytes) : Prop :=
  ∃ rest, url = ascii "http://localhost" ++ rest ∧ EndsHost rest

-- `stored` names the device which casts where `url` names "localhost", and is `url` everywhere else.
structure Redirects (serverIP url stored : Bytes) : Prop where
  localhost : ∀ rest, url = ascii "http://localhost" ++ rest → EndsHost rest →
    stored = ascii "http://" ++ serverIP ++ rest
  other     : ¬IsLocalhost url → stored = url

theorem localhost_eq : ascii "http://localhost" = ascii "http://" ++ ascii "localhost" := by
  decide

-- A match anywhere in the URL has "localhost" replaced.
theorem rewriteCoverUrl_of_find {serverIP url : Bytes} {pos : Nat}
    (h : Bytes.find (ascii "http://localhost") url = some pos) :
    ∃ a b, url = a ++ ascii "http://localhost" ++ b ∧ a.length = pos ∧
      rewriteCoverUrl serverIP url = a ++ ascii "http://" ++ serverIP ++ b := by
  obtain ⟨a, b, hu, rfl⟩ := Bytes.find_some h
  refine ⟨a, b, hu, rfl, ?_⟩
  have hr := Bytes.replace_append (a ++ ascii "http://") (ascii "localhost") b serverIP
  simp only [rewriteCoverUrl, h]
  rw [List.length_append] at hr
  rw [← hr, hu, localhost_eq]
  simp only [List.append_assoc]

theorem rewriteCoverUrl_of_prefix (serverIP rest : Bytes) :
    rewriteCoverUrl serverIP (ascii "http://localhost" ++ rest) = ascii "http://" ++ serverIP ++ rest := by
  obtain ⟨a, b, hu, ha, hr⟩ := @rewriteCoverUrl_of_find serverIP _ _
    (Bytes.find_of_prefix (List.prefix_append (ascii "http://localhost") rest))
  cases List.eq_nil_of_length_eq_zero ha
  rw [hr, List.append_cancel_left hu]
  rfl

theorem rewriteCoverUrl_redirects_iff {serverIP url : Bytes} :
    Redirects serverIP url (rewriteCoverUrl serverIP url) ↔
      IsLocalhost url ∨ ¬ascii "http://localhost" <:+: url ∨ serverIP = ascii "localhost" := by
  by_cases hl : IsLocalhost url
  case pos =>
    obtain ⟨rest, rfl, hrest⟩ := hl
    refine iff_of_true ⟨fun rest' hu _ => ?_, absurd ⟨rest, rfl, hrest⟩⟩ (.inl ⟨rest, rfl, hrest⟩)
    rw [hu, rewriteCoverUrl_of_prefix]
  case neg =>
    have hi : Redirects serverIP url (rewriteCoverUrl serverIP url) ↔ rewriteCoverUrl serverIP url = url :=
      ⟨fun h => h.other hl, fun h => ⟨fun rest hu hr => absurd ⟨rest, hu, hr⟩ hl, fun _ => h⟩⟩
    rw [hi, or_iff_right hl]
    cases hf : Bytes.find (ascii "http://localhost") url
    case none =>
      have hn := Bytes.find_eq_none_iff.mp hf
      exact iff_of_true (by simp [rewriteCoverUrl, hf]) (.inl hn)
    case some pos =>
      obtain ⟨a, b, hu, _, hr⟩ := @rewriteCoverUrl_of_find serverIP _ _ hf
      have hm : ascii "http://localhost" <:+: url := ⟨a, b, hu.symm⟩
      rw [hr, or_iff_right (not_not.mpr hm), hu, localhost_eq]
      simp

-- `doSetMetadata` stores the right URL if "http://localhost" names the host, or does not occur.
theorem coverUrl_redirects_iff (env : Env) (s : Session) (root : Value)
    (hr : root.isConvertibleTo .objectValue)
    (ht : Typed root (LightningCastCommCmd.fields (some .SET_METADATA))) :
    Returns (doSetMetadata env root) s (fun _ s' =>
        Redirects s.serverIP (bytesOf env.toLib root "CoverUrl") s'.coverUrl) ↔
      IsLocalhost (bytesOf env.toLib root "CoverUrl") ∨
        ¬ascii "http://localhost" <:+: bytesOf env.toLib root "CoverUrl" ∨
        s.serverIP = ascii "localhost" := by
  rw [doSetMetadata_returns hr, and_iff_right ht]
  exact rewriteCoverUrl_redirects_iff

-- The metadata of a track with the given cover.
def metadata (url : Bytes) : Value :=
  .object [(ascii "Album", .string []), (ascii "Artist", .string []), (ascii "CoverUrl", .string url),
    (ascii "Title", .string [])]

def coverEnv : Env where
  parse _          := .ok none
  doubleToString _ := []
  now              := {}
  started          := true

theorem metadata_typed (url : Bytes) :
    Typed (metadata url) (LightningCastCommCmd.fields (some .SET_METADATA)) := by
  simp only [LightningCastCommCmd.fields, typed_cons, typed_nil, and_true]
  exact ⟨rfl, rfl, rfl, rfl⟩

-- The tablet serves the cover itself.
set_option maxRecDepth 4000 in
theorem localCover_redirects :
    Returns (doSetMetadata coverEnv (metadata (ascii "http://localhost:8080/a.png")))
      { serverIP := ascii "10.0.0.2" }
      fun _ s' => Redirects (ascii "10.0.0.2") (ascii "http://localhost:8080/a.png") s'.coverUrl :=
  (coverUrl_redirects_iff coverEnv _ _ rfl (metadata_typed _)).mpr
    (.inl ⟨ascii ":8080/a.png", by decide, by decide⟩)

-- The cover is on another host, whose name begins with "localhost".
set_option maxRecDepth 4000 in
theorem localhosts_redirected :
    (doSetMetadata coverEnv (metadata (ascii "http://localhosts.com/a.png"))).run.run
        { serverIP := ascii "10.0.0.2" } =
      (.ok (), { serverIP := ascii "10.0.0.2", coverUrl := ascii "http://10.0.0.2s.com/a.png" }) ∧
    ¬Redirects (ascii "10.0.0.2") (ascii "http://localhosts.com/a.png")
      (ascii "http://10.0.0.2s.com/a.png") := by
  refine ⟨by rfl, fun h => ?_⟩
  refine absurd (h.other ?_) (by decide)
  rintro ⟨rest, hu, hr⟩
  have hs : ascii "s.com/a.png" = rest :=
    List.append_cancel_left (show ascii "http://localhost" ++ ascii "s.com/a.png" = _ from hu)
  subst hs
  exact absurd hr (by decide)

end LightningCastClient
