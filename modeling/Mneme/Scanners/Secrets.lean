/-
The catalogue of secrets: the expressions of its rules and the scanner that they make.

The classes of the engine that are tables of Unicode are taken as they are; what they say of
the first 128 characters is known.  Without regard to case, two characters beyond these fold
to a letter: the long s and the Kelvin sign.
-/

import Mneme.Library.Assignments
import Mneme.Scanners.Matches

namespace Mneme.Scanners.Secrets

open Common Library Expression

structure Unicode where
  word : Char → Bool
  decimal : Char → Bool
  asciiWord : ∀ char : Char, char.toNat < 128 → word char = (char.isAlphanum || char = '_')
  asciiDecimal : ∀ char : Char, char.toNat < 128 → decimal char = char.isDigit

/-! ### Classes and combinations -/

/-- The characters of a class as they are written, with ranges. -/
def inClass : List Char → Char → Bool
  | low :: '-' :: high :: rest, char => (low ≤ char && char ≤ high) || inClass rest char
  | other :: rest, char => other = char || inClass rest char
  | [], _ => false

def set (written : String) : Char → Bool :=
  inClass written.toList

def foldsTo (char : Char) : List Char :=
  char :: char.toLower :: char.toUpper ::
    (if char = 'ſ' then ['s', 'S'] else if char = '\u212a' then ['k', 'K'] else [])

/-- Without regard to case. -/
def caseless (accept : Char → Bool) (char : Char) : Bool :=
  (foldsTo char).any accept

def caselessLiteral (text : String) : Expression :=
  text.toList.foldr (fun char rest => seq (one (caseless (· == char))) rest) nothing

def sequence (parts : List Expression) : Expression :=
  parts.foldr seq nothing

def choice (first : String) : List String → Expression
  | [] => literal first
  | second :: others => either (literal first) (choice second others)

def times (accept : Char → Bool) (count : Nat) : Expression :=
  many accept count (some count)

def least (accept : Char → Bool) (count : Nat) : Expression :=
  many accept count none

/-- Any character but the end of a line. -/
def dot (char : Char) : Bool :=
  char ≠ '\n'

def marks : Marks where
  blank := isWhitespace
  separator := set ":="
  quote := set "\"'"

def jsonMarks : Marks where
  blank := isWhitespace
  separator := set ":"
  quote := set "\""

/-! ### The catalogue -/

structure Secret where
  ruleId : String
  label : String
  expression : Expression

variable (unicode : Unicode)

/-- The rules in the order of the source. -/
def secrets : List Secret :=
  [⟨"secrets.aws-access-key", "AWS access key id",
    sequence [boundary, choice "AKIA" ["ASIA", "ABIA", "ACCA"], times (set "0-9A-Z") 16, boundary]⟩,
  ⟨"secrets.aws-secret", "AWS secret key (heuristic)",
    sequence [boundary, caselessLiteral "aws", option (many dot 0 (some 20)),
      either (caselessLiteral "secret") (caselessLiteral "access"), few dot 0 (some 20),
      one (set "\"'"), times (caseless (set "A-Za-z0-9/+=")) 40, one (set "\"'")]⟩,
  ⟨"secrets.azure-storage-key", "Azure storage account key",
    sequence [boundary, literal "DefaultEndpointsProtocol=https;AccountName=",
      least (set "A-Za-z0-9") 1, literal ";AccountKey=", least (set "A-Za-z0-9+/=") 60]⟩,
  ⟨"secrets.gcp-service-account", "GCP service account JSON",
    assignment jsonMarks (literal "\"type\"") (literal "service_account")⟩,
  ⟨"secrets.openai-key", "OpenAI API key",
    sequence [boundary, literal "sk-", least (set "A-Za-z0-9_-") 20, boundary]⟩,
  ⟨"secrets.anthropic-key", "Anthropic API key",
    sequence [boundary, literal "sk-ant-", least (set "A-Za-z0-9_-") 20, boundary]⟩,
  ⟨"secrets.github-pat", "GitHub personal access token",
    sequence [boundary, literal "ghp_", times (set "A-Za-z0-9") 36, boundary]⟩,
  ⟨"secrets.github-oauth", "GitHub OAuth token",
    sequence [boundary, literal "gho_", times (set "A-Za-z0-9") 36, boundary]⟩,
  ⟨"secrets.github-app", "GitHub app token",
    sequence [boundary, choice "ghu" ["ghs"], literal "_", times (set "A-Za-z0-9") 36, boundary]⟩,
  ⟨"secrets.github-refresh", "GitHub refresh token",
    sequence [boundary, literal "ghr_", least (set "A-Za-z0-9") 36, boundary]⟩,
  ⟨"secrets.gitlab-pat", "GitLab personal access token",
    sequence [boundary, literal "glpat-", times (set "A-Za-z0-9_-") 20, boundary]⟩,
  ⟨"secrets.slack-bot", "Slack bot token",
    sequence [boundary, literal "xoxb-", least (set "0-9") 1, literal "-", least (set "0-9") 1,
      literal "-", least (set "0-9") 1, literal "-", least (set "A-Za-z0-9") 24, boundary]⟩,
  ⟨"secrets.slack-user", "Slack user token",
    sequence [boundary, literal "xoxp-", least (set "0-9") 1, literal "-", least (set "0-9") 1,
      literal "-", least (set "0-9") 1, literal "-", least (set "A-Za-z0-9") 32, boundary]⟩,
  ⟨"secrets.slack-app", "Slack app token",
    sequence [boundary, literal "xapp-", least (set "0-9") 1, literal "-", least (set "A-Z0-9") 1,
      literal "-", least (set "0-9") 1, literal "-", least (set "A-Za-z0-9") 60, boundary]⟩,
  ⟨"secrets.slack-webhook", "Slack webhook URL",
    sequence [literal "https://hooks.slack.com/services/", least (set "A-Z0-9/") 1]⟩,
  ⟨"secrets.stripe-live", "Stripe live key",
    sequence [boundary, literal "sk_live_", least (set "0-9A-Za-z") 24, boundary]⟩,
  ⟨"secrets.stripe-restricted", "Stripe restricted key",
    sequence [boundary, literal "rk_live_", least (set "0-9A-Za-z") 24, boundary]⟩,
  ⟨"secrets.stripe-publishable", "Stripe publishable key",
    sequence [boundary, literal "pk_live_", least (set "0-9A-Za-z") 24, boundary]⟩,
  ⟨"secrets.twilio-sid", "Twilio account SID",
    sequence [boundary, literal "AC", times (set "a-z0-9") 32, boundary]⟩,
  ⟨"secrets.twilio-key", "Twilio API key",
    sequence [boundary, literal "SK", times (set "a-z0-9") 32, boundary]⟩,
  ⟨"secrets.sendgrid", "SendGrid API key",
    sequence [boundary, literal "SG.", times (set "A-Za-z0-9_-") 22, literal ".",
      times (set "A-Za-z0-9_-") 43, boundary]⟩,
  ⟨"secrets.mailgun", "Mailgun API key",
    sequence [boundary, literal "key-", times (set "a-z0-9") 32, boundary]⟩,
  ⟨"secrets.mailchimp", "Mailchimp API key",
    sequence [boundary, times (set "0-9a-f") 32, literal "-us", many (set "0-9") 1 (some 2),
      boundary]⟩,
  ⟨"secrets.heroku", "Heroku API key",
    assignment marks
      (sequence [boundary, one (set "hH"), literal "eroku", least (set "A-Za-z0-9_-") 0,
        option (one (set "\"'"))])
      (sequence [times (set "0-9a-f") 8, literal "-", times (set "0-9a-f") 4, literal "-",
        times (set "0-9a-f") 4, literal "-", times (set "0-9a-f") 4, literal "-",
        times (set "0-9a-f") 12])⟩,
  ⟨"secrets.npm-token", "NPM access token",
    sequence [boundary, literal "npm_", times (set "A-Za-z0-9") 36, boundary]⟩,
  ⟨"secrets.pypi-token", "PyPI upload token",
    sequence [boundary, literal "pypi-AgEIcHlwaS5vcmc", least (set "A-Za-z0-9_-") 50, boundary]⟩,
  ⟨"secrets.docker-hub", "Docker hub PAT",
    sequence [boundary, literal "dckr_pat_", least (set "A-Za-z0-9_-") 27, boundary]⟩,
  ⟨"secrets.discord-bot", "Discord bot token",
    sequence [boundary, one (set "MN"),
      times (fun char => set "A-Za-z" char || unicode.decimal char) 23, literal ".",
      times (fun char => set "A-Za-z_-" char || unicode.decimal char) 6, literal ".",
      times (fun char => set "A-Za-z_-" char || unicode.decimal char) 27, boundary]⟩,
  ⟨"secrets.facebook", "Facebook access token",
    sequence [boundary, literal "EAACEdEose0cBA", least (set "A-Za-z0-9") 1, boundary]⟩,
  ⟨"secrets.google-api", "Google API key",
    sequence [boundary, literal "AIza", times (set "0-9A-Za-z_-") 35, boundary]⟩,
  ⟨"secrets.google-oauth", "Google OAuth client",
    sequence [boundary, least (set "0-9") 1, literal "-", times (set "A-Za-z0-9_") 32,
      literal ".apps.googleusercontent.com", boundary]⟩,
  ⟨"secrets.firebase", "Firebase Cloud Messaging legacy key",
    sequence [boundary, literal "AAAA", times (set "A-Za-z0-9_-") 7, literal ":",
      times (set "A-Za-z0-9_-") 140, boundary]⟩,
  ⟨"secrets.linkedin", "LinkedIn client secret (heuristic)",
    assignment marks
      (sequence [caselessLiteral "linkedin", option (one (set "_-")),
        either (caselessLiteral "client") (caselessLiteral "secret"), option (one (set "_-")),
        either (caselessLiteral "id") (caselessLiteral "key"), option (one (set "\"'"))])
      (least (caseless (set "A-Za-z0-9")) 16)⟩,
  ⟨"secrets.square", "Square access token",
    sequence [boundary, literal "sq0atp-", times (set "A-Za-z0-9_-") 22, boundary]⟩,
  ⟨"secrets.square-oauth", "Square OAuth secret",
    sequence [boundary, literal "sq0csp-", times (set "A-Za-z0-9_-") 43, boundary]⟩,
  ⟨"secrets.cloudflare", "Cloudflare API token",
    sequence [boundary, times (set "A-Za-z0-9_") 40, boundary, least isWhitespace 0, finish]⟩,
  ⟨"secrets.algolia", "Algolia API key (heuristic)",
    assignment marks
      (sequence [caselessLiteral "algolia", option (one (set "_-")),
        option (sequence [caselessLiteral "api", option (one (set "_-"))]), caselessLiteral "key",
        option (one (set "\"'"))])
      (times (caseless (set "a-f0-9")) 32)⟩,
  ⟨"secrets.datadog", "Datadog API key (heuristic)",
    assignment marks
      (sequence [caselessLiteral "dd", option (one (set "_-")), caselessLiteral "api",
        option (one (set "_-")), caselessLiteral "key", option (one (set "\"'"))])
      (times (caseless (set "a-f0-9")) 32)⟩,
  ⟨"secrets.pagerduty", "PagerDuty API key (heuristic)",
    assignment marks
      (sequence [caselessLiteral "pagerduty", option (one (set "_-")),
        option (sequence [caselessLiteral "api", option (one (set "_-"))]), caselessLiteral "key",
        option (one (set "\"'"))])
      (many (caseless (set "A-Za-z0-9_+-")) 20 (some 32))⟩,
  ⟨"secrets.shopify-token", "Shopify private app token",
    sequence [boundary, literal "shpat_", times (set "a-fA-F0-9") 32, boundary]⟩,
  ⟨"secrets.shopify-shared", "Shopify shared secret",
    sequence [boundary, literal "shpss_", times (set "a-fA-F0-9") 32, boundary]⟩,
  ⟨"secrets.private-key", "PEM private key",
    sequence [literal "-----BEGIN ", choice "RSA" ["EC", "DSA", "OPENSSH", "PRIVATE"],
      option (literal " "), option (literal "PRIVATE "), literal "KEY-----"]⟩,
  ⟨"secrets.jwt", "JSON Web Token",
    sequence [boundary, literal "eyJ", least (set "A-Za-z0-9_-") 8, literal ".",
      least (set "A-Za-z0-9_-") 8, literal ".", least (set "A-Za-z0-9_-") 8, boundary]⟩,
  ⟨"secrets.basic-auth-url", "Basic auth in URL",
    sequence [literal "http", option (literal "s"), literal "://", least (set "A-Za-z0-9_-") 1,
      literal ":", least (set "A-Za-z0-9_-") 4, literal "@"]⟩]

/-! ### The scanner -/

/-- A place that was found in a text, with the length of what was found. -/
def matchAt (content : List Char) (found : Nat × Nat) : Match content where
  before := content.take found.1
  matched := (content.drop found.1).take found.2
  after := (content.drop found.1).drop found.2
  whole := by rw [List.take_append_drop, List.take_append_drop]

def Secret.find (secret : Secret) (content : List Char) : List (Nat × Nat) :=
  Search.findIter (secret.expression.find unicode.word) 0 [] content

def Secret.pattern (secret : Secret) : Pattern where
  findIter := fun content => (secret.find unicode content).map (matchAt content)

def catalog : List SecretPattern :=
  (secrets unicode).map (fun secret => ⟨secret.ruleId, secret.label, secret.pattern unicode⟩)

def scan (file : Path) (content : List Char) : List Finding :=
  ((secretsScanner (catalog unicode)).scan file content).getD []

end Mneme.Scanners.Secrets
