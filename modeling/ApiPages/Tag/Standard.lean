import ApiPages.Tag.Ancestry
import ApiPages.Tag.Declares
import ApiPages.Tag.Flag
import ApiPages.Tag.History
import ApiPages.Tag.Signature

namespace ApiPages.Tag

/-- The tags that are always on offer, in their order of registration. -/
def standard : List Tag :=
  [cfg, property, method, event, cssVar, cssMixin, privateFlag, protectedFlag, staticFlag, since,
    deprecated, param, returned, thrown, chainable, ancestor, mixins, override]

end ApiPages.Tag
