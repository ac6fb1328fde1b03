import KaChatIndexer.NamesEnv

/-!
# Address profiles

Validation of a `kchat:1:profile:<json>` record: size, version, and the links allowed in each
field. A link not allowed in its field is dropped; the record stands.
-/
namespace KaChatIndexer.NamesProfile
open ByteStrings NamesState NamesEnv

def maxProfileBytes : ℕ := 2048

def xHost : Bytes := ascii "https://x.com/"
def youtubeHost : Bytes := ascii "https://www.youtube.com/"
def discordHost : Bytes := ascii "https://discord.gg/"
def telegramHost : Bytes := ascii "https://t.me/"
def twitchHost : Bytes := ascii "https://www.twitch.tv/"
def githubHost : Bytes := ascii "https://github.com/"
def facebookHost : Bytes := ascii "https://www.facebook.com/"
def instagramHost : Bytes := ascii "https://www.instagram.com/"
def tiktokHost : Bytes := ascii "https://www.tiktok.com/"
def linkedinHost : Bytes := ascii "https://www.linkedin.com/"
def linktreePrefix : Bytes := ascii "https://linktr.ee/"

def avatarHosts : List Bytes :=
  [xHost, youtubeHost, discordHost, telegramHost, twitchHost, githubHost, facebookHost,
    instagramHost, tiktokHost, linkedinHost]

def bannerHosts : List Bytes := [xHost, youtubeHost, discordHost]

def bioHosts : List Bytes :=
  [xHost, youtubeHost, discordHost, telegramHost, twitchHost, githubHost]

structure Profile where
  avatar : Option Bytes
  banner : Option Bytes
  bio : Option Bytes
  linktree : Option Bytes
  primaryName : Option Bytes
  deriving DecidableEq

/-- A link on one of `hosts`, with a handle after it. -/
def allowed (url : Bytes) (hosts : List Bytes) : Bool :=
  hosts.any fun h => h.isPrefixOf url && h.length < url.length

def parseProfile (env : Env) (json : Bytes) : Option Profile :=
  if maxProfileBytes < json.length then none
  else (env.rawProfile json).bind fun raw =>
    if raw.v ≠ some 1 then none
    else some
      { avatar := raw.avatar.filter fun s => allowed s avatarHosts
        banner := raw.banner.filter fun s => allowed s bannerHosts
        bio := raw.bio.filter fun s => allowed s bioHosts
        linktree := raw.linktree.filter fun s => allowed s [linktreePrefix]
        primaryName := raw.primaryName.filter fun n => isValidName n }

end KaChatIndexer.NamesProfile
